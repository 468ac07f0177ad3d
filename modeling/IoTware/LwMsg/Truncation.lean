import IoTware.LwMsg.Cursor

/-!
# Texts that end too early

In a buffer that is filled up with terminators the parser reads a message from
any text. The message is proper unless the text ends in a key, before a value or
in the text of an entry: this entry is bound with a NULL key or a NULL text.
-/

namespace IoTware.LwMsg

open CText Loops

-- ---------------------------------------------------------------------------
-- Repeated keys
-- ---------------------------------------------------------------------------

/-- The entries that the loop of `_lwm_dict_parsing` reads, in their order. -/
def lwmEntries : Nat → List Char → List LWMKVObject
  | 0, _ => []
  | _ + 1, [] => []
  | n + 1, c :: p =>
    if c = nul then []
    else if isSpace c then lwmEntries n p
    else if c = '}' then []
    else if c = ';' then lwmEntries n p
    else
      match lwmKvoParsing n (c :: p) with
      | .ok (some kvo, d :: q) => kvo :: if d = '}' then [] else lwmEntries n q
      | _ => []

/-- A key is bound to the value of the last entry with it. -/
def LastWins (entries : List LWMKVObject) (dict : LWMDictionary) : Prop :=
  ∀ k v, (some k, v) ∈ dict ↔ (entries.reverse.find? fun kv => kv.1 = some k) = some (some k, v)

def textKeys (dict : LWMDictionary) : List Text := dict.filterMap Prod.fst

theorem deleteLwmKvoByKey_mem_iff (h : deleteLwmKvoByKey dict (some key) = .ok dict')
    (hd : (textKeys dict).Nodup) : (some k, v) ∈ dict' ↔ (some k, v) ∈ dict ∧ k ≠ key := by
  induction dict generalizing dict' with
  | nil =>
    cases h
    simp
  | cons kv dict ih =>
    obtain ⟨key', value⟩ := kv
    cases key' with
    | none => cases h
    | some key' =>
      have hkeys : textKeys ((some key', value) :: dict) = key' :: textKeys dict := rfl
      rw [hkeys, List.nodup_cons] at hd
      unfold deleteLwmKvoByKey at h
      split at h
      · rename_i hkey
        cases h
        subst hkey
        constructor
        · intro hmem
          refine ⟨List.mem_cons_of_mem _ hmem, ?_⟩
          rintro rfl
          exact hd.1 (List.mem_filterMap.mpr ⟨_, hmem, rfl⟩)
        · rintro ⟨hmem, hne⟩
          rcases List.mem_cons.mp hmem with heq | hmem
          · cases heq
            exact absurd rfl hne
          · exact hmem
      · rename_i hkey
        simp only [bind_ok, pure_ok] at h
        obtain ⟨rest, hrest, rfl⟩ := h
        rw [List.mem_cons, List.mem_cons, ih hrest hd.2]
        constructor
        · rintro (heq | ⟨hmem, hne⟩)
          · cases heq
            exact ⟨.inl rfl, hkey⟩
          · exact ⟨.inr hmem, hne⟩
        · rintro ⟨heq | hmem, hne⟩
          · exact .inl heq
          · exact .inr ⟨hmem, hne⟩

theorem LastWins.insert (h : LastWins entries dict) (hd : (textKeys dict).Nodup)
    (hdel : deleteLwmKvoByKey dict kv.1 = .ok dict') :
    LastWins (entries ++ [kv]) (kv :: dict') ∧ (textKeys (kv :: dict')).Nodup := by
  obtain ⟨key, value⟩ := kv
  cases key with
  | none =>
    have hsame : dict' = dict := by
      cases dict <;> cases hdel <;> rfl
    subst hsame
    refine ⟨fun k v => ?_, hd⟩
    rw [List.mem_cons, List.reverse_concat, List.find?_cons_of_neg (by simp), ← h k v]
    simp
  | some key =>
    have hmem (k v) := deleteLwmKvoByKey_mem_iff (k := k) (v := v) hdel hd
    constructor
    · intro k v
      rw [List.mem_cons, List.reverse_concat]
      by_cases hkey : key = k
      · subst hkey
        rw [List.find?_cons_of_pos (by simp), hmem]
        simp [eq_comm]
      · rw [List.find?_cons_of_neg (by simpa using hkey), ← h k v, hmem]
        simp [Ne.symm hkey]
    · refine List.nodup_cons.mpr ⟨?_, ((deleteLwmKvoByKey_sublist hdel).filterMap _).nodup hd⟩
      intro hin
      obtain ⟨⟨key', v⟩, hin, heq⟩ := List.mem_filterMap.mp hin
      cases heq
      exact ((hmem key v).mp hin).2 rfl

theorem lwmDictLoop_lastWins (h : lwmDictLoop n dict p = .ok (b, dict', q))
    (hlast : LastWins entries dict) (hd : (textKeys dict).Nodup) :
    LastWins (entries ++ lwmEntries n p) dict' := by
  induction n generalizing entries dict p with
  | zero => cases h
  | succ n ih =>
    cases p with
    | nil => cases h
    | cons c p =>
      rw [lwmDictLoop] at h
      rw [lwmEntries]
      split at h
      · rename_i hnul
        cases h
        rw [if_pos hnul, List.append_nil]
        exact hlast
      rename_i hnul
      rw [if_neg hnul]
      split at h
      · rename_i hspace
        rw [if_pos hspace]
        exact ih h hlast hd
      rename_i hspace
      rw [if_neg hspace]
      split at h
      · rename_i hclose
        cases h
        rw [if_pos hclose, List.append_nil]
        exact hlast
      rename_i hclose
      rw [if_neg hclose]
      split at h
      · rename_i hsep
        rw [if_pos hsep]
        exact ih h hlast hd
      rename_i hsep
      rw [if_neg hsep]
      rw [bind_ok] at h
      obtain ⟨⟨kvo, r⟩, hkvo, h⟩ := h
      rw [hkvo]
      cases kvo with
      | none =>
        cases h
        simpa using hlast
      | some kvo =>
        simp only [bind_ok] at h
        obtain ⟨rest, hdel, h⟩ := h
        obtain ⟨hnew, hnodup⟩ := hlast.insert hd hdel
        cases r with
        | nil => cases h
        | cons d r =>
          dsimp only at h ⊢
          split at h
          · rename_i hend
            cases h
            rw [if_pos hend]
            exact hnew
          · rename_i hend
            rw [if_neg hend]
            simpa using ih h hnew hnodup

-- ---------------------------------------------------------------------------
-- Messages
-- ---------------------------------------------------------------------------

/-- What the parser reads from a text in a buffer with `k` more terminators is
proper, and the last entry with a key wins in every dictionary, if and only if
the text does not end inside an entry. -/
theorem parse_proper_iff (hs : IsCString s) (h : parseLwmMessageStr (s ++ pad k) = .ok (some msg)) :
    (msg.Proper ∧ ∀ n p b dict q, lwmDictLoop n [] p = .ok (b, dict, q) →
      LastWins (lwmEntries n p) dict) ↔ ¬ (scan s).InEntry := by
  have hlast : ∀ n p b dict q, lwmDictLoop n [] p = .ok (b, dict, q) →
      LastWins (lwmEntries n p) dict := by
    intro n p b dict q hloop
    have hnil : LastWins [] [] := by simp [LastWins]
    exact lwmDictLoop_lastWins hloop hnil (by simp [textKeys])
  refine (and_iff_left hlast).trans ?_
  cases s with
  | nil => cases h
  | cons c cs =>
    obtain ⟨hparse, hloop⟩ := parse_loop (k := k) hs
    rw [hparse] at h
    rcases hloop with ⟨-, hr | ⟨-, ⟨b, msg'⟩, hr, hproper⟩⟩ | ⟨hin, ⟨b, msg'⟩, hr, hproper⟩
    · rw [hr] at h
      cases h
    · rw [hr] at h
      cases b with
      | false => cases h
      | true =>
        cases h
        exact hproper
    · rw [hr] at h
      have hentry : ¬ (scan (c :: cs)).InEntry := by
        intro hentry
        cases hscan : scan (c :: cs) with
        | inside spot outer mode =>
          rw [hscan] at hin
          exact hin trivial
        | message mode =>
          rw [hscan] at hentry
          exact hentry
        | ended =>
          rw [hscan] at hentry
          exact hentry
      cases b with
      | false => cases h
      | true =>
        cases h
        exact iff_of_true hproper hentry

theorem parse_truncated_key :
    parseLwmMessageStr (['{', 'a'] ++ pad 2) = .ok (some ⟨[(none, .string none)], []⟩) := by
  rfl

/-- A text cut behind a key gives an entry whose key is NULL. -/
theorem truncated_key_not_proper :
    ¬ ∀ s k msg, IsCString s → parseLwmMessageStr (s ++ pad k) = .ok (some msg) →
      msg.Proper ∧ ∀ n p b dict q, lwmDictLoop n [] p = .ok (b, dict, q) →
        LastWins (lwmEntries n p) dict := by
  intro h
  obtain ⟨hproper, -⟩ := h _ _ _ (by decide) parse_truncated_key
  exact absurd rfl (hproper.1.1.nonNull (none, .string none) List.mem_cons_self)

theorem truncated_array_proper :
    ∃ msg, parseLwmMessageStr (['{', 'a', '=', '[', 'b', ','] ++ pad 2) = .ok (some msg) ∧
      msg.Proper ∧ ∀ n p b dict q, lwmDictLoop n [] p = .ok (b, dict, q) →
        LastWins (lwmEntries n p) dict := by
  have h : parseLwmMessageStr (['{', 'a', '=', '[', 'b', ','] ++ pad 2) =
      .ok (some ⟨[(some ['a'], .array [.string (some ['b'])])], []⟩) := rfl
  exact ⟨_, h, (parse_proper_iff (by decide) h).mpr (by decide)⟩

end IoTware.LwMsg
