import IoTware.LwMsg.Cost

/-!
# Which messages survive the wire

`_lwm_dict_parsing` stops at the closing brace its value routine stopped at, so
a nested dictionary closes the dictionary it is in: the entries behind it are
lost, and behind the header with it the body. `parse_render_iff` says that this
is all that is ever lost.
-/

namespace IoTware.LwMsg

open CText Loops

/-- What a dictionary routine leaves behind when it was stopped before its last
entry: the braces it did not close and then another entry. -/
def Cut (q : List Char) : Prop :=
  ∃ j k z, q = List.replicate (j + 1) '}' ++ ';' :: (k ++ '=' :: z) ∧ ∀ c ∈ k, PlainChar c

theorem Cut.cons (h : Cut q) : ∃ r, q = '}' :: r := by
  obtain ⟨j, k, z, rfl, -⟩ := h
  exact ⟨_, rfl⟩

theorem Cut.count_pos (h : Cut q) : 0 < q.count '=' := by
  obtain ⟨j, k, z, rfl, -⟩ := h
  exact List.count_pos_iff.mpr (by simp)

theorem renderEntries_cons (k : Text) (v : Tree) (entries : List (Text × Tree)) :
    ∃ z, renderEntries ((k, v) :: entries) = k ++ '=' :: z := by
  cases entries with
  | nil => exact ⟨_, rfl⟩
  | cons e entries => exact ⟨_, rfl⟩

theorem cut_renderEntries (h : entriesWellFormed (e :: entries)) :
    Cut (List.replicate (j + 1) '}' ++ ';' :: (renderEntries (e :: entries) ++ q)) := by
  obtain ⟨z, hz⟩ := renderEntries_cons e.1 e.2 entries
  refine ⟨j, e.1, z ++ q, ?_, h.1.2.2⟩
  rw [hz]
  simp

theorem lwmArrayLoop_object_skip_ok (h : ∀ c ∈ t, c ≠ nul ∧ c ≠ ',' ∧ c ≠ ']')
    (hloop : lwmArrayLoop n .object arr (t ++ p) = .ok res) :
    ∃ m, lwmArrayLoop m .object arr p = .ok res := by
  induction t generalizing n with
  | nil => exact ⟨n, hloop⟩
  | cons c t ih =>
    obtain ⟨hnul, hcomma, hclose⟩ := h c (by simp)
    cases n with
    | zero => simp [lwmArrayLoop] at hloop
    | succ n =>
      refine ih (n := n) (fun d hd => h d (by simp [hd])) ?_
      rw [List.cons_append, lwmArrayLoop, if_neg hnul] at hloop
      simpa [hcomma, hclose] using hloop

theorem lwmArrayLoop_cut (hcut : Cut q) (h : lwmArrayLoop n .object arr q.tail = .ok (arr', r)) :
    (arr'.map itemsEntryCount).getD 0 + r.count '=' < itemsEntryCount arr + q.count '=' := by
  obtain ⟨j, k, z, rfl, hk⟩ := hcut
  rw [List.replicate_succ, List.cons_append, List.tail_cons,
    show List.replicate j '}' ++ ';' :: (k ++ '=' :: z) =
      (List.replicate j '}' ++ ';' :: (k ++ ['='])) ++ z by simp] at h
  obtain ⟨m, h⟩ := lwmArrayLoop_object_skip_ok (by
    intro c hc
    simp only [List.mem_append, List.mem_cons, List.mem_replicate, List.not_mem_nil, or_false] at hc
    rcases hc with ⟨-, rfl⟩ | rfl | hc | rfl
    · decide
    · decide
    · exact ⟨(hk c hc).ne_nul, (hk c hc).ne_of_mem (by decide), (hk c hc).ne_of_mem (by decide)⟩
    · decide) h
  have hcount := (countsAt m).arrayLoop h
  simp only [List.count_append, List.count_cons_self, List.count_cons]
  omega

/-- The value bought fewer entries than it took `=`, or its dictionary was cut
off. -/
def ValueLost (p : List Char) (value : Option LWMObject) (q : List Char) : Prop :=
  (value.map LWMObject.entryCount).getD 0 + q.count '=' < p.count '=' ∨ (value.isSome ∧ Cut q)

theorem lwmDictLoop_lost (hk : PlainText k) (hlost : ∀ value q, lwmKvoVal n p = .ok (value, q) →
      ValueLost p value q)
    (h : lwmDictLoop (n + 2) dict (k ++ '=' :: p) = .ok (b, dict', r)) :
    dictEntryCount dict' + r.count '=' < dictEntryCount dict + (k ++ '=' :: p).count '=' ∨
      (b = true ∧ Cut r) := by
  rw [lwmDictLoop_entry hk] at h
  simp only [bind_ok] at h
  obtain ⟨⟨value, q⟩, hval, h⟩ := h
  have hpos : (k ++ '=' :: p).count '=' = p.count '=' + 1 := by simp [hk.count]
  have hlost := hlost value q hval
  cases value with
  | none =>
    cases h
    rcases hlost with hlost | ⟨hs, -⟩
    · simp only [Option.map_none, Option.getD_none] at hlost; left; omega
    · exact absurd hs (by simp)
  | some value =>
    simp only [bind_ok] at h
    obtain ⟨rest, hdel, h⟩ := h
    have hsub := dictEntryCount_sublist (deleteLwmKvoByKey_sublist hdel)
    have hcons : dictEntryCount ((some k, value) :: rest) =
        1 + value.entryCount + dictEntryCount rest := by simp [dictEntryCount]
    rcases hlost with hlost | ⟨-, hcut⟩
    · left
      simp only [Option.map_some, Option.getD_some] at hlost
      cases q with
      | nil => simp at h
      | cons d q =>
        simp only at h
        have hd : q.count '=' ≤ (d :: q).count '=' := List.count_le_count_cons
        split at h
        · cases h; omega
        · have := (countsAt (n + 1)).dictLoop h; omega
    · right
      obtain ⟨z, rfl⟩ := hcut.cons
      simp only [if_true] at h
      cases h
      exact ⟨rfl, hcut⟩

theorem Tree.WellFormed.entryCount_mirror {v : Tree} (h : v.WellFormed) :
    v.mirror.entryCount = v.render.count '=' := by
  rw [Tree.Denotes.entryCount v v.mirror v.denotes_mirror, v.count_render h]

theorem isDictionary_openable {v : Tree} (h : ¬ v.NestsLast) :
    lwmArrayLoop (n + 1) .openable arr (v.render ++ p) = (do
      let (obj, q) ← lwmKvoVal (n + 1) (v.render ++ p)
      lwmArrayLoop n .object (addLwmObjectToArray arr obj) q.tail) := by
  cases v with
  | text t => exact absurd trivial h
  | array items =>
    simp only [Tree.render, List.cons_append]
    rw [lwmArrayLoop_array, lwmKvoVal_array]
  | dictionary entries =>
    simp only [Tree.render, List.cons_append]
    rw [lwmArrayLoop_dictionary, lwmKvoVal_dictionary]

theorem lwmArrayLoop_item_lost {v : Tree} (hn : ¬ v.NestsLast)
    (hlost : ∀ value q, lwmKvoVal n (v.render ++ p) = .ok (value, q) →
      ValueLost (v.render ++ p) value q)
    (h : lwmArrayLoop n .openable arr (v.render ++ p) = .ok (arr', r)) :
    (arr'.map itemsEntryCount).getD 0 + r.count '=' <
      itemsEntryCount arr + (v.render ++ p).count '=' := by
  cases n with
  | zero => simp [lwmArrayLoop] at h
  | succ n =>
    rw [isDictionary_openable hn] at h
    simp only [bind_ok, Prod.exists] at h
    obtain ⟨obj, q, hval, hloop⟩ := h
    rcases hlost obj q hval with hlost | ⟨hsome, hcut⟩
    · have hrest := (countsAt n).arrayLoop hloop
      have htail := count_tail_le q
      rw [itemsEntryCount_addLwmObjectToArray] at hrest
      omega
    · have hread := (countsAt (n + 1)).kvoVal hval
      have hrest := lwmArrayLoop_cut hcut hloop
      rw [itemsEntryCount_addLwmObjectToArray] at hrest
      omega

mutual
theorem lwmKvoVal_lost : (v : Tree) → v.WellFormed → ¬ v.NestsLast →
    2 * (v.render ++ q).length + 2 ≤ n →
    lwmKvoVal n (v.render ++ q) = .ok (o, r) → ValueLost (v.render ++ q) o r
  | .text _, _, hn, _, _ => absurd trivial hn
  | .array [], _, hn, _, _ => absurd trivial hn
  | .array (v :: items), hw, hn, hf, h => by
    obtain ⟨m, rfl⟩ : ∃ m, n = m + 2 := ⟨n - 2, by omega⟩
    obtain ⟨c, s, hr, hc, -⟩ := itemsWellFormed.render_cons hw
    have hlost (arr' r) := lwmArrayLoop_lost (q := q) (n := m) (a := arr') (r := r)
      (v :: items) [] hw hn (by
        simp only [Tree.render, List.length_append, List.length_cons, List.length_nil] at hf ⊢
        omega)
    simp only [Tree.render, hr, List.cons_append, List.append_assoc, List.nil_append] at h hlost ⊢
    rw [lwmKvoVal_array, lwmNewArrayParsing_open hc] at h
    simp only [bind_ok] at h
    obtain ⟨⟨arr', r'⟩, hloop, h⟩ := h
    cases h
    have hlost := hlost _ _ hloop
    have hcount : (c :: (s ++ ']' :: q)).count '=' ≤ ('[' :: c :: (s ++ ']' :: q)).count '=' :=
      List.count_le_count_cons
    simp only [itemsEntryCount] at hlost
    left
    cases arr' <;> simp [LWMObject.entryCount] at hlost hcount ⊢ <;> omega
  | .dictionary entries, hw, hn, hf, h => by
    obtain ⟨m, rfl⟩ : ∃ m, n = m + 2 := ⟨n - 2, by omega⟩
    have hlost (b dict' r) := lwmDictLoop_cut (q := q) (n := m) (b := b) (d := dict') (r := r)
      entries [] hw.1 hw.2 hn (by simp [KeysNonNull]) (by simp [keys]) (by
        simp only [Tree.render, List.length_append, List.length_cons, List.length_nil] at hf ⊢
        omega)
    simp only [Tree.render, List.cons_append, List.append_assoc, List.nil_append] at h ⊢
    rw [lwmKvoVal_dictionary, lwmNewDictParsing_open] at h
    simp only [bind_ok] at h
    obtain ⟨⟨b, dict', r'⟩, hloop, h⟩ := h
    cases h
    have hcount : (renderEntries entries ++ '}' :: q).count '=' ≤
        ('{' :: (renderEntries entries ++ '}' :: q)).count '=' := List.count_le_count_cons
    rcases hlost _ _ _ hloop with hlost | ⟨rfl, hcut⟩
    · left
      simp only [dictEntryCount] at hlost
      cases b <;> simp [LWMObject.entryCount] at hlost hcount ⊢ <;> omega
    · exact .inr ⟨rfl, hcut⟩
theorem lwmArrayLoop_lost : (items : List Tree) → (arr : List LWMObject) → itemsWellFormed items →
    ¬ itemsNestLast items → 2 * (renderItems items ++ ']' :: q).length + 2 ≤ n →
    lwmArrayLoop n .openable arr (renderItems items ++ ']' :: q) = .ok (a, r) →
    (a.map itemsEntryCount).getD 0 + r.count '=' <
      itemsEntryCount arr + (renderItems items ++ ']' :: q).count '='
  | [], _, _, hn, _, _ => absurd trivial hn
  | [v], arr, hw, hn, hf, h => by
    have hv : ¬ v.NestsLast := fun hv => hn ⟨hv, trivial⟩
    simp only [renderItems] at hf h ⊢
    exact lwmArrayLoop_item_lost hv (fun _ _ => lwmKvoVal_lost v hw.1 hv hf) h
  | v :: w :: items, arr, hw, hn, hf, h => by
    simp only [renderItems, List.append_assoc, List.cons_append] at hf h ⊢
    by_cases hv : v.NestsLast
    · obtain ⟨m, hm, hitem⟩ := lwmArrayLoop_item (a := arr) v hw.1 hv (.inl rfl) hf
      rw [hitem, if_pos rfl] at h
      have hrest := lwmArrayLoop_lost (w :: items) (v.mirror :: arr) hw.2 (fun h => hn ⟨hv, h⟩) hm h
      have hmirror := hw.1.entryCount_mirror
      simp only [itemsEntryCount] at hrest
      simp only [List.count_append, List.count_cons] at hrest ⊢
      omega
    · exact lwmArrayLoop_item_lost hv (fun _ _ => lwmKvoVal_lost v hw.1 hv hf) h
theorem lwmDictLoop_cut : (entries : List (Text × Tree)) → (dict : LWMDictionary) →
    (entries.map Prod.fst).Nodup → entriesWellFormed entries → ¬ entriesNestLast entries →
    KeysNonNull dict → (∀ e ∈ entries, some e.1 ∉ keys dict) →
    2 * (renderEntries entries ++ '}' :: q).length + 2 ≤ n →
    lwmDictLoop n dict (renderEntries entries ++ '}' :: q) = .ok (b, d, r) →
    dictEntryCount d + r.count '=' <
        dictEntryCount dict + (renderEntries entries ++ '}' :: q).count '=' ∨
      (b = true ∧ Cut r)
  | [], _, _, _, hn, _, _, _, _ => absurd trivial hn
  | [(k, v)], dict, _, hw, hn, _, _, hf, h => by
    have hv : ¬ v.NestsLast := fun hv => hn ⟨hv, fun _ => rfl, trivial⟩
    simp only [renderEntries, List.append_assoc, List.cons_append, List.length_append,
      List.length_cons] at hf h ⊢
    obtain ⟨m, rfl⟩ : ∃ m, n = m + 2 := ⟨n - 2, by omega⟩
    have hlost (value r) := lwmKvoVal_lost (q := '}' :: q) (n := m) (o := value) (r := r) v hw.2.1
      hv (by simp only [List.length_append, List.length_cons]; omega)
    exact lwmDictLoop_lost hw.1 hlost h
  | (k, v) :: e :: entries, dict, hd, hw, hn, hnn, hk, hf, h => by
    simp only [renderEntries, List.append_assoc, List.cons_append, List.length_append,
      List.length_cons] at hf h ⊢
    obtain ⟨m, rfl⟩ : ∃ m, n = m + 3 := ⟨n - 3, by omega⟩
    by_cases hv : v.NestsLast
    · have hval := lwmKvoVal_render (q := renderEntries (e :: entries) ++ '}' :: q) (n := m + 1) v
        hw.2.1 hv (.inl rfl) (by simp only [List.length_append, List.length_cons]; omega)
      have hnew := hk (k, v) (by simp)
      by_cases hdict : v.isDictionary
      · cases v with
        | dictionary inner =>
          rw [Tree.leftover, List.replicate_succ, List.cons_append] at hval
          rw [lwmDictLoop_entry_ok hw.1 hval hnn hnew, if_pos rfl] at h
          cases h
          exact .inr ⟨rfl, cut_renderEntries hw.2.2⟩
        | text t => cases hdict
        | array items => cases hdict
      · obtain ⟨n, hm, hloop⟩ := lwmDictLoop_next hdict hw.1 hval hnn hnew
        rw [hloop] at h
        have hmirror := hw.2.1.entryCount_mirror
        have hrest := lwmDictLoop_cut (e :: entries) ((some k, v.mirror) :: dict)
          (List.nodup_cons.mp hd).2 hw.2.2 (fun hr => hn ⟨hv, fun h => absurd h hdict, hr⟩) hnn.cons
          (fresh_tail hd hk) (by simp only [List.length_append, List.length_cons]; omega) h
        refine hrest.imp_left fun hlost => ?_
        simp only [dictEntryCount, if_neg (Option.some_ne_none k)] at hlost
        simp only [List.count_append, List.count_cons, hw.1.count] at hlost ⊢
        simp at hlost ⊢
        omega
    · have hlost (value r) := lwmKvoVal_lost (q := ';' :: (renderEntries (e :: entries) ++ '}' :: q))
        (n := m + 1) (o := value) (r := r) v hw.2.1 hv
        (by simp only [List.length_append, List.length_cons]; omega)
      exact lwmDictLoop_lost hw.1 hlost h
end

-- ---------------------------------------------------------------------------
-- Messages
-- ---------------------------------------------------------------------------

theorem lwmDictParsing_open :
    lwmDictParsing n dict ('{' :: p) = (do
      let (bFlag, d, q) ← lwmDictLoop n dict p
      return (if bFlag then d else foreachToDel d, q)) := by
  simp [lwmDictParsing]

theorem lwmMessageLoop_space (hnul : c ≠ nul) (hspace : isSpace c) :
    lwmMessageLoop (n + 1) mode b msg (c :: p) = lwmMessageLoop n mode b msg p := by
  rw [lwmMessageLoop.eq_def]
  simp [hnul, hspace]

theorem lwmMessageLoop_header :
    lwmMessageLoop (n + 1) .header b msg ('{' :: p) = (do
      let (header, q) ← lwmDictParsing n msg.header ('{' :: p)
      lwmMessageLoop n .body true { msg with header } q.tail) := by
  rw [lwmMessageLoop.eq_def]
  simp [nul, isSpace, lwmIsToken, isAlnum, isDigit, isPunct]

theorem lwmMessageLoop_body :
    lwmMessageLoop (n + 1) .body b msg ('{' :: p) = (do
      let (body, q) ← lwmDictParsing n msg.body ('{' :: p)
      lwmMessageLoop n .openable true { msg with body } q.tail) := by
  rw [lwmMessageLoop.eq_def]
  simp [nul, isSpace, lwmIsToken, isAlnum, isDigit, isPunct]

theorem lwmMessageLoop_third :
    lwmMessageLoop (n + 1) .openable b msg ('{' :: p) = .ok (false, msg) := by
  rw [lwmMessageLoop.eq_def]
  simp [nul, isSpace, lwmIsToken, isAlnum, isDigit, isPunct]

theorem lwmMessageLoop_stop (hc : c ∈ ['}', ';', nul]) :
    lwmMessageLoop (n + 1) mode b msg (c :: p) = .ok (b, msg) := by
  rw [lwmMessageLoop.eq_def]
  simp only [List.mem_cons, List.not_mem_nil, or_false] at hc
  rcases hc with rfl | rfl | rfl <;> simp [nul, isSpace, lwmIsToken]

theorem lwmMessageLoop_openable (h : lwmMessageLoop n .openable b msg p = .ok (b', msg')) :
    msg' = msg := by
  induction n generalizing p with
  | zero => simp [lwmMessageLoop] at h
  | succ n ih =>
    cases p with
    | nil => simp [lwmMessageLoop] at h
    | cons c p =>
      rw [lwmMessageLoop.eq_def] at h
      simp only at h
      split at h
      · cases h; rfl
      split at h
      · exact ih h
      split at h
      · cases h; rfl
      split at h
      · cases h; rfl
      · cases h; rfl

theorem entriesOpenBraces_eq_zero_iff : (entries : List (Text × Tree)) → entriesNestLast entries →
    (entriesOpenBraces entries = 0 ↔ ∀ e ∈ entries, ¬ e.2.isDictionary)
  | [], _ => by simp [entriesOpenBraces]
  | [(k, v)], _ => by cases v <;> simp [entriesOpenBraces, Tree.openBraces, Tree.isDictionary]
  | (k, v) :: e :: entries, hn => by
    have ih := entriesOpenBraces_eq_zero_iff (e :: entries) hn.2.2
    have hv : ¬ v.isDictionary := fun h => by simpa using hn.2.1 h
    rw [entriesOpenBraces, ih, List.forall_mem_cons (a := (k, v))]
    exact (and_iff_right hv).symm

theorem lwmMessageLoop_leftover (hj : j ≠ 0) :
    lwmMessageLoop (n + 1) mode b msg (List.replicate j '}' ++ q) = .ok (b, msg) := by
  obtain ⟨i, rfl⟩ := Nat.exists_eq_succ_of_ne_zero hj
  exact lwmMessageLoop_stop (by simp)

theorem lwmMessageLoop_of_cut (hcut : Cut q)
    (h : lwmMessageLoop n mode b msg q.tail = .ok (b', msg')) : msg' = msg := by
  obtain ⟨j, k, z, rfl, -⟩ := hcut
  cases n with
  | zero => simp [lwmMessageLoop] at h
  | succ n =>
    cases j with
    | zero =>
      rw [List.replicate_succ, List.cons_append, List.tail_cons, List.replicate_zero,
        List.nil_append, lwmMessageLoop_stop (by simp)] at h
      cases h
      rfl
    | succ j =>
      rw [List.replicate_succ, List.cons_append, List.tail_cons,
        lwmMessageLoop_leftover (by simp)] at h
      cases h
      rfl

def MessageTree.behindHeader (m : MessageTree) : List Char :=
  (m.body.map fun body => (Tree.dictionary body).render).getD [] ++ [nul]

theorem MessageTree.terminated_render (m : MessageTree) :
    terminated m.render = '{' :: (renderEntries m.header ++ '}' :: m.behindHeader) := by
  simp [terminated, MessageTree.render, Tree.render, behindHeader]

theorem parse_terminated_render (m : MessageTree) :
    parseLwmMessageStr (terminated m.render) = (do
      let (bFlag, msg) ← lwmMessageLoop
        (2 * (renderEntries m.header ++ '}' :: m.behindHeader).length + 4) .header false
        newLwmEmptyMessage ('{' :: (renderEntries m.header ++ '}' :: m.behindHeader))
      return if bFlag then some msg else none) := by
  rw [m.terminated_render, parseLwmMessageStr, if_neg (by decide)]
  rfl

theorem MessageTree.count_behindHeader {m : MessageTree} (hm : m.WellFormed) :
    m.behindHeader.count '=' = entriesEntryCount (m.body.getD []) := by
  obtain ⟨header, body⟩ := m
  cases body with
  | none => simp [behindHeader, nul, entriesEntryCount]
  | some body =>
    have hcount := Tree.count_render (.dictionary body) (hm.2 body rfl)
    simp only [behindHeader, Option.map_some, Option.getD_some, List.count_append, hcount,
      Tree.entryCount]
    rfl

theorem lwmMessageLoop_body_lost (hw : (Tree.dictionary body).WellFormed)
    (hf : 2 * (renderEntries body ++ '}' :: q).length + 3 ≤ n) (hq : q.count '=' = 0)
    (hloop : lwmMessageLoop n .body b ⟨header, []⟩ ('{' :: (renderEntries body ++ '}' :: q)) =
      .ok (b', msg))
    (hcount : dictEntryCount msg.body = entriesEntryCount body) : entriesNestLast body := by
  by_contra hn
  obtain ⟨n, rfl⟩ : ∃ m, n = m + 1 := ⟨n - 1, by omega⟩
  rw [lwmMessageLoop_body, lwmDictParsing_open] at hloop
  simp only [bind_ok, pure_ok] at hloop
  obtain ⟨⟨_, _⟩, ⟨⟨b'', d, r⟩, hdict, heq⟩, hloop⟩ := hloop
  cases heq
  cases lwmMessageLoop_openable hloop
  have hlost := lwmDictLoop_cut body [] hw.1 hw.2 hn (by simp [KeysNonNull]) (by simp [keys])
    (by omega) hdict
  have hread := (countsAt n).dictLoop hdict
  have hrender := count_renderEntries body hw.2
  have hdel := dictEntryCount_foreachToDel d
  simp [dictEntryCount, hq, hrender] at hlost hread
  rcases hlost with hlost | ⟨rfl, hcut⟩
  · simp only at hcount
    split at hcount <;> omega
  · have hpos := hcut.count_pos
    simp only [if_true] at hcount
    omega

/-- A message in which the header or the body could be cut, or the header keeps
the body from being read, is not read back. -/
theorem MessageTree.NestsLast.of_denotes {m : MessageTree} (hm : m.WellFormed)
    (hparse : parseLwmMessageStr (terminated m.render) = .ok (some msg)) (hd : m.Denotes msg) :
    m.NestsLast := by
  have hheader := hd.1.entryCount
  have hbody := hd.2.entryCount
  have hbehind := count_behindHeader hm
  have hcount := count_renderEntries m.header hm.1.2
  rw [parse_terminated_render] at hparse
  simp only [bind_ok, pure_ok] at hparse
  obtain ⟨⟨bFlag, msg'⟩, hloop, hmsg⟩ := hparse
  have : msg' = msg := by
    split at hmsg
    · exact Option.some.inj hmsg
    · cases hmsg
  subst this
  rw [lwmMessageLoop_header, lwmDictParsing_open] at hloop
  simp only [bind_ok, pure_ok, newLwmEmptyMessage] at hloop
  obtain ⟨⟨header, r⟩, ⟨⟨b, d, r'⟩, hdict, heq⟩, hloop⟩ := hloop
  cases heq
  by_cases hn : entriesNestLast m.header
  · have hfuel : 2 * (renderEntries m.header ++ '}' :: m.behindHeader).length + 2 ≤
        2 * (renderEntries m.header ++ '}' :: m.behindHeader).length + 3 := by omega
    rw [lwmDictLoop_render m.header [] hm.1.1 hm.1.2 hn (by simp [KeysNonNull]) (by simp [keys])
      hfuel] at hdict
    cases hdict
    simp only [if_true, List.replicate_succ, List.cons_append, List.tail_cons] at hloop
    refine ⟨hn, ?_⟩
    by_cases hopen : entriesOpenBraces m.header = 0
    · rintro body hb
      refine ⟨?_, .inr ((entriesOpenBraces_eq_zero_iff _ hn).mp hopen)⟩
      rw [hopen, List.replicate_zero, List.nil_append] at hloop
      obtain ⟨header, body'⟩ := m
      cases hb
      simp only [MessageTree.behindHeader, Option.map_some, Option.getD_some, Tree.render, List.cons_append,
        List.append_assoc, List.nil_append] at hloop
      refine lwmMessageLoop_body_lost (hm.2 body rfl) ?_ (by decide) hloop hbody
      simp only [List.length_append, List.length_cons]
      omega
    · rw [lwmMessageLoop_leftover hopen] at hloop
      cases hloop
      rintro body hb
      rw [hb] at hbody
      have hnil : body = [] := by
        cases body with
        | nil => rfl
        | cons e body =>
          simp only [Option.getD_some, entriesEntryCount, dictEntryCount] at hbody
          omega
      exact ⟨hnil ▸ trivial, .inl hnil⟩
  · have hlost := lwmDictLoop_cut m.header [] hm.1.1 hm.1.2 hn (by simp [KeysNonNull])
      (by simp [keys]) (by omega) hdict
    simp only [dictEntryCount, List.count_append, List.count_cons] at hlost
    rcases hlost with hlost | ⟨rfl, hcut⟩
    · have hrest := lwmMessageLoop_count hloop
      have htail := count_tail_le r'
      have hdel := dictEntryCount_foreachToDel d
      simp only [LWMessage.entryCount, dictEntryCount] at hrest
      simp at hlost
      split at hrest <;> omega
    · have hread := (countsAt _).dictLoop hdict
      have hpos := hcut.count_pos
      cases lwmMessageLoop_of_cut hcut hloop
      simp only [dictEntryCount, List.count_append, List.count_cons] at hread hbody
      simp at hread hheader
      omega

theorem lwmMessageLoop_body_render (hw : (Tree.dictionary body).WellFormed)
    (hn : entriesNestLast body) (hf : 2 * (renderEntries body ++ ['}', nul]).length + 3 ≤ n) :
    lwmMessageLoop n .body b ⟨header, []⟩ ('{' :: (renderEntries body ++ ['}', nul])) =
      .ok (true, ⟨header, mirrorEntries body []⟩) := by
  obtain ⟨n, rfl⟩ : ∃ m, n = m + 2 := ⟨n - 2, by omega⟩
  rw [lwmMessageLoop_body, lwmDictParsing_open, lwmDictLoop_render body [] hw.1 hw.2 hn
    (by simp [KeysNonNull]) (by simp [keys]) (by omega)]
  simp only [bind, Except.bind, pure, Except.pure, if_true, List.replicate_succ, List.cons_append,
    List.tail_cons]
  by_cases hopen : entriesOpenBraces body = 0
  · rw [hopen, List.replicate_zero, List.nil_append, lwmMessageLoop_stop (by simp)]
  · rw [lwmMessageLoop_leftover hopen]

theorem MessageTree.NestsLast.parse_render {m : MessageTree} (hn : m.NestsLast) (hm : m.WellFormed) :
    parseLwmMessageStr (terminated m.render) =
      .ok (some ⟨mirrorEntries m.header [], mirrorEntries (m.body.getD []) []⟩) := by
  rw [parse_terminated_render, lwmMessageLoop_header, lwmDictParsing_open, newLwmEmptyMessage,
    lwmDictLoop_render m.header [] hm.1.1 hm.1.2 hn.1 (by simp [KeysNonNull]) (by simp [keys])
      (by omega)]
  simp only [bind, Except.bind, pure, Except.pure, if_true, List.replicate_succ, List.cons_append,
    List.tail_cons]
  obtain ⟨header, body⟩ := m
  by_cases hopen : entriesOpenBraces header = 0
  · rw [hopen, List.replicate_zero, List.nil_append]
    cases body with
    | none =>
      rw [MessageTree.behindHeader, Option.map_none, Option.getD_none, List.nil_append,
        lwmMessageLoop_stop (by simp)]
      rfl
    | some body =>
      simp only [MessageTree.behindHeader, Option.map_some, Option.getD_some, Tree.render,
        List.cons_append, List.append_assoc, List.nil_append]
      rw [lwmMessageLoop_body_render (hm.2 body rfl) (hn.2 body rfl).1 (by
        simp only [List.length_append, List.length_cons]
        omega)]
      rfl
  · rw [lwmMessageLoop_leftover hopen]
    have hbody : mirrorEntries (body.getD []) [] = [] := by
      cases body with
      | none => rfl
      | some body =>
        rcases (hn.2 body rfl).2 with rfl | hflat
        · rfl
        · exact absurd ((entriesOpenBraces_eq_zero_iff header hn.1).mpr hflat) hopen
    simp only [hbody]
    rfl

theorem MessageTree.NestsLast.denotes {m : MessageTree} (hm : m.WellFormed) (hn : m.NestsLast) :
    ∃ msg, parseLwmMessageStr (terminated m.render) = .ok (some msg) ∧ m.Denotes msg :=
  ⟨_, hn.parse_render hm, dictDenotes_mirror _, dictDenotes_mirror _⟩

/-- A well-formed message is read back as it was written exactly when every
dictionary that is the value of an entry ends the dictionary it is in, and the
header has none where a body with entries follows. -/
theorem parse_render_iff {m : MessageTree} (hm : m.WellFormed) :
    (∃ msg, parseLwmMessageStr (terminated m.render) = .ok (some msg) ∧ m.Denotes msg) ↔
      m.NestsLast := by
  constructor
  · rintro ⟨msg, hparse, hd⟩
    exact .of_denotes hm hparse hd
  · intro hn
    exact hn.denotes hm

/-- The header `a` of a nested dictionary and `d` behind it. -/
def nestedFirst : MessageTree where
  header := [(['a'], .dictionary [(['b'], .text ['c'])]), (['d'], .text ['e'])]
  body := none

theorem parse_nestedFirst :
    parseLwmMessageStr (terminated nestedFirst.render) =
      .ok (some ⟨[(some ['a'], .dictionary [(some ['b'], .string (some ['c']))])], []⟩) := by
  rfl

/-- `d` is lost. -/
theorem nestedFirst_not_read_back :
    nestedFirst.WellFormed ∧
      ¬ ∃ msg, parseLwmMessageStr (terminated nestedFirst.render) = .ok (some msg) ∧
        nestedFirst.Denotes msg := by
  constructor
  · simp [MessageTree.WellFormed, Tree.WellFormed, entriesWellFormed, nestedFirst]
    decide
  · rintro ⟨msg, hparse, hd, -⟩
    rw [parse_nestedFirst] at hparse
    cases hparse
    exact absurd hd.entryCount (by decide)

/-- The header `a` and behind it a nested dictionary. -/
def nestedLast : MessageTree where
  header := [(['d'], .text ['e']), (['a'], .dictionary [(['b'], .text ['c'])])]
  body := none

theorem nestedLast_read_back :
    nestedLast.NestsLast ∧
      ∃ msg, parseLwmMessageStr (terminated nestedLast.render) = .ok (some msg) ∧
        nestedLast.Denotes msg := by
  have hw : nestedLast.WellFormed := by
    simp [MessageTree.WellFormed, Tree.WellFormed, entriesWellFormed, nestedLast]
    decide
  have hn : nestedLast.NestsLast := by
    simp [MessageTree.NestsLast, entriesNestLast, Tree.NestsLast, nestedLast, Tree.isDictionary]
  exact ⟨hn, (parse_render_iff hw).mpr hn⟩

end IoTware.LwMsg
