import IoTware.LwMsg.Render

/-!
# The parser on a rendering

What each routine does at the places a rendering can put it, and from that: a
rendering in which every nested dictionary ends the dictionary it is in is read
back as it was written.
-/

namespace IoTware.LwMsg

open CText

-- ---------------------------------------------------------------------------
-- Plain characters
-- ---------------------------------------------------------------------------

theorem PlainChar.ne_of_mem (h : PlainChar c) (hd : d ∈ delimiters) : c ≠ d :=
  fun he => h.2 (he ▸ hd)

theorem PlainChar.ne_nul (h : PlainChar c) : c ≠ nul := by
  rintro rfl
  exact absurd h.1 (by decide)

theorem PlainChar.not_token (h : PlainChar c) (hne : tokens ≠ []) (hs : tokens ⊆ delimiters) :
    ¬ lwmIsToken c tokens := by
  have hclass := class_of_isPrint h.1
  have hempty : tokens.isEmpty = false := by simpa using hne
  simp only [lwmIsToken, hempty, hclass, Bool.false_or, Bool.not_true, Bool.or_false,
    List.any_eq_true, beq_iff_eq, not_exists, not_and]
  exact fun t ht => h.ne_of_mem (hs ht)

theorem PlainChar.not_space (h : PlainChar c) (hb : c ≠ ' ') : ¬ isSpace c := by
  have hn : c.toNat ≠ 32 := fun he => hb (Char.toNat_inj.mp he)
  have hp := h.1
  simp only [isPrint, Bool.and_eq_true, decide_eq_true_eq] at hp
  simp [isSpace]
  omega

theorem lwmIsToken_self (h : c ∈ tokens) : lwmIsToken c tokens = true := by
  simp only [lwmIsToken, Bool.or_eq_true, List.any_eq_true]
  exact .inr ⟨c, h, .inl (by simp)⟩

theorem PlainText.cons (h : PlainText t) :
    ∃ c s, t = c :: s ∧ PlainChar c ∧ ¬ isSpace c ∧ ∀ d ∈ s, PlainChar d := by
  obtain ⟨hne, hb, hp⟩ := h
  cases t with
  | nil => exact absurd rfl hne
  | cons c s =>
    have hc := hp c (by simp)
    exact ⟨c, s, rfl, hc, hc.not_space (by simpa using hb), fun d hd => hp d (by simp [hd])⟩

-- ---------------------------------------------------------------------------
-- Keys and texts
-- ---------------------------------------------------------------------------

theorem lwmKvoKey_plain (h : ∀ c ∈ t, PlainChar c) :
    lwmKvoKey (some s) (t ++ '=' :: q) = .ok (.key (between s ('=' :: q)) q) := by
  induction t with
  | nil => simp [lwmKvoKey, nul, isSpace, lwmIsToken, isAlnum, isDigit, isPunct]
  | cons c t ih =>
    have hc := h c (by simp)
    have ih := ih fun d hd => h d (by simp [hd])
    rw [List.cons_append, lwmKvoKey, if_neg hc.ne_nul]
    split
    · exact ih
    · rw [if_neg (hc.not_token (by decide) (by decide)), if_neg (hc.ne_of_mem (by decide))]
      exact ih

theorem lwmKvoKey_text (h : PlainText k) : lwmKvoKey none (k ++ '=' :: q) = .ok (.key k q) := by
  obtain ⟨c, s, rfl, hc, hspace, hs⟩ := h.cons
  rw [List.cons_append, lwmKvoKey, if_neg hc.ne_nul, if_neg hspace,
    if_neg (hc.not_token (by decide) (by decide)), if_neg (hc.ne_of_mem (by decide)),
    Option.getD_none, lwmKvoKey_plain hs, ← List.cons_append, between_append]

theorem lwmKvoText_plain (h : ∀ c ∈ t, PlainChar c) (hd : d = ';' ∨ d = '}') :
    lwmKvoText s (t ++ d :: q) = .ok (some (some (between s (d :: q))), d :: q) := by
  induction t with
  | nil =>
    rcases hd with rfl | rfl <;>
      simp [lwmKvoText, nul, isSpace, lwmIsToken, isAlnum, isDigit, isPunct]
  | cons c t ih =>
    have hc := h c (by simp)
    have ih := ih fun e he => h e (by simp [he])
    rw [List.cons_append, lwmKvoText, if_neg hc.ne_nul]
    split
    · exact ih
    · rw [if_neg (hc.not_token (by decide) (by decide)),
        if_neg (hc.not_token (by decide) (by decide))]
      exact ih

-- ---------------------------------------------------------------------------
-- One step of each loop
-- ---------------------------------------------------------------------------

@[simp] theorem lwmDictLoop_close :
    lwmDictLoop (n + 1) dict ('}' :: p) = .ok (true, dict, '}' :: p) := by
  simp [lwmDictLoop, nul, isSpace]

@[simp] theorem lwmDictLoop_separator :
    lwmDictLoop (n + 1) dict (';' :: p) = lwmDictLoop n dict p := by
  simp [lwmDictLoop, nul, isSpace]

theorem lwmDictLoop_entry (hk : PlainText k) :
    lwmDictLoop (n + 2) dict (k ++ '=' :: p) = (do
      match ← lwmKvoVal n p with
      | (none, q) => return (false, dict, q)
      | (some value, q) =>
        let dict ← deleteLwmKvoByKey dict (some k)
        match q with
        | [] => .error .overrun
        | d :: q =>
          if d = '}' then return (true, (some k, value) :: dict, d :: q)
          else lwmDictLoop (n + 1) ((some k, value) :: dict) q) := by
  obtain ⟨c, s, rfl, hc, hspace, hs⟩ := hk.cons
  have hkey := lwmKvoKey_text (q := p) hk
  simp only [List.cons_append] at hkey ⊢
  rw [lwmDictLoop, if_neg hc.ne_nul, if_neg hspace, if_neg (hc.ne_of_mem (by decide)),
    if_neg (hc.ne_of_mem (by decide)), lwmKvoParsing, hkey]
  cases h : lwmKvoVal n p with
  | error e => simp [bind, Except.bind, h]
  | ok r =>
    obtain ⟨value, q⟩ := r
    cases value with
    | none => simp [bind, Except.bind, pure, Except.pure, h]
    | some value =>
      simp only [bind, Except.bind, h]
      rfl

theorem lwmDictLoop_entry_ok (hk : PlainText k) (hv : lwmKvoVal n p = .ok (some value, d :: q))
    (hn : KeysNonNull dict) (hf : some k ∉ keys dict) :
    lwmDictLoop (n + 2) dict (k ++ '=' :: p) =
      if d = '}' then .ok (true, (some k, value) :: dict, d :: q)
      else lwmDictLoop (n + 1) ((some k, value) :: dict) q := by
  rw [lwmDictLoop_entry hk, hv]
  simp only [bind, Except.bind, deleteLwmKvoByKey_of_notMem hn hf]
  rfl

theorem lwmKvoVal_text (ht : PlainText t) (hd : d = ';' ∨ d = '}') :
    lwmKvoVal (n + 1) (t ++ d :: q) = .ok (some (.string (some t)), d :: q) := by
  obtain ⟨c, s, rfl, hc, hspace, hs⟩ := ht.cons
  rw [List.cons_append, lwmKvoVal, if_neg hc.ne_nul, if_neg hspace,
    if_neg (hc.ne_of_mem (by decide)), if_neg (hc.ne_of_mem (by decide)),
    if_neg (hc.not_token (by decide) (by decide)), lwmKvoText_plain hs hd,
    ← List.cons_append, between_append]
  rfl

theorem lwmNewDictParsing_open :
    lwmNewDictParsing (n + 1) ('{' :: p) = (do
      let (bFlag, dict, q) ← lwmDictLoop n [] p
      return (if bFlag then some (.dictionary dict) else none, q)) := by
  simp [lwmNewDictParsing]

theorem lwmKvoVal_dictionary :
    lwmKvoVal (n + 1) ('{' :: p) = lwmNewDictParsing n ('{' :: p) := by
  simp [lwmKvoVal, nul, isSpace]

theorem lwmKvoVal_array : lwmKvoVal (n + 1) ('[' :: p) = lwmNewArrayParsing n ('[' :: p) := by
  simp [lwmKvoVal, nul, isSpace]

@[simp] theorem lwmNewArrayParsing_empty :
    lwmNewArrayParsing (n + 1) ('[' :: ']' :: p) = .ok (some (.array []), ']' :: p) := by
  simp [lwmNewArrayParsing]

theorem lwmNewArrayParsing_open (h : c ≠ ']') :
    lwmNewArrayParsing (n + 1) ('[' :: c :: p) = (do
      let (arr, q) ← lwmArrayLoop n .openable [] (c :: p)
      return (arr.map .array, q)) := by
  simp [lwmNewArrayParsing, h]

theorem lwmArrayLoop_dictionary :
    lwmArrayLoop (n + 1) .openable arr ('{' :: p) = (do
      let (obj, q) ← lwmNewDictParsing n ('{' :: p)
      lwmArrayLoop n .object (addLwmObjectToArray arr obj) q.tail) := by
  simp [lwmArrayLoop, nul, isSpace]

theorem lwmArrayLoop_array :
    lwmArrayLoop (n + 1) .openable arr ('[' :: p) = (do
      let (obj, q) ← lwmNewArrayParsing n ('[' :: p)
      lwmArrayLoop n .object (addLwmObjectToArray arr obj) q.tail) := by
  simp [lwmArrayLoop, nul, isSpace]

@[simp] theorem lwmArrayLoop_object_comma :
    lwmArrayLoop (n + 1) .object arr (',' :: p) = lwmArrayLoop n .openable arr p := by
  simp [lwmArrayLoop, nul, isSpace]

@[simp] theorem lwmArrayLoop_object_close :
    lwmArrayLoop (n + 1) .object arr (']' :: p) = .ok (some arr, ']' :: p) := by
  simp [lwmArrayLoop, nul, isSpace]

theorem lwmArrayLoop_object_skip (h : ∀ c ∈ t, c ≠ nul ∧ c ≠ ',' ∧ c ≠ ']') :
    lwmArrayLoop (t.length + n) .object a (t ++ p) = lwmArrayLoop n .object a p := by
  induction t with
  | nil => simp
  | cons c t ih =>
    obtain ⟨hnul, hcomma, hclose⟩ := h c (by simp)
    have ih := ih fun d hd => h d (by simp [hd])
    rw [List.length_cons, Nat.add_right_comm, List.cons_append, lwmArrayLoop, if_neg hnul, ih]
    simp [hcomma, hclose]

theorem lwmArrayLoop_kvVal_plain (h : ∀ c ∈ t, PlainChar c) :
    lwmArrayLoop (t.length + n) (.kvVal s) arr (t ++ p) = lwmArrayLoop n (.kvVal s) arr p := by
  induction t with
  | nil => simp
  | cons c t ih =>
    have hc := h c (by simp)
    have ih := ih fun d hd => h d (by simp [hd])
    rw [List.length_cons, Nat.add_right_comm, List.cons_append, lwmArrayLoop, if_neg hc.ne_nul, ih]
    simp [hc.ne_of_mem (d := ',') (by decide), hc.ne_of_mem (d := ']') (by decide)]

theorem lwmArrayLoop_text (ht : PlainText t) :
    lwmArrayLoop (t.length + n) .openable arr (t ++ p) =
      lwmArrayLoop n (.kvVal (t ++ p)) arr p := by
  obtain ⟨c, s, rfl, hc, hspace, hs⟩ := ht.cons
  rw [List.length_cons, Nat.add_right_comm, List.cons_append, lwmArrayLoop, if_neg hc.ne_nul,
    if_neg hspace]
  simp only [hc.ne_of_mem (d := ',') (by decide), hc.ne_of_mem (d := ']') (by decide),
    hc.ne_of_mem (d := '{') (by decide), hc.ne_of_mem (d := '[') (by decide),
    (hc.not_token (by simp) (by decide) : ¬ lwmIsToken c ['}', ';', '=']), or_self, if_false,
    Bool.false_eq_true]
  exact lwmArrayLoop_kvVal_plain hs

theorem lwmArrayLoop_kvVal_end (hd : d = ',' ∨ d = ']') :
    lwmArrayLoop (n + 1) (.kvVal s) arr (d :: p) =
      if d = ',' then lwmArrayLoop n .openable (.string (some (between s (d :: p))) :: arr) p
      else .ok (some (.string (some (between s (d :: p))) :: arr), d :: p) := by
  rcases hd with rfl | rfl <;> simp [lwmArrayLoop, nul, isSpace]

-- ---------------------------------------------------------------------------
-- Renderings
-- ---------------------------------------------------------------------------

def Tree.leftover : Tree → List Char
  | .text _ => []
  | .array _ => [']']
  | .dictionary entries => List.replicate (entriesOpenBraces entries + 1) '}'

theorem Tree.WellFormed.render_cons {v : Tree} (h : v.WellFormed) :
    ∃ c s, v.render = c :: s ∧ c ≠ ']' ∧ c ≠ nul ∧ ¬ isSpace c := by
  cases v with
  | text t =>
    obtain ⟨c, s, rfl, hc, hspace, -⟩ := PlainText.cons h
    exact ⟨c, s, rfl, hc.ne_of_mem (by decide), hc.ne_nul, hspace⟩
  | array items => exact ⟨'[', _, rfl, by decide, by decide, by decide⟩
  | dictionary entries => exact ⟨'{', _, rfl, by decide, by decide, by decide⟩

theorem itemsWellFormed.render_cons (h : itemsWellFormed (v :: items)) :
    ∃ c s, renderItems (v :: items) = c :: s ∧ c ≠ ']' ∧ c ≠ nul ∧ ¬ isSpace c := by
  obtain ⟨c, s, hr, hc⟩ := h.1.render_cons
  cases items with
  | nil => exact ⟨c, s, by rw [renderItems, hr], hc⟩
  | cons w items => exact ⟨c, _, by rw [renderItems, hr, List.cons_append], hc⟩

theorem replicate_append_cons (n : Nat) (c : α) (q : List α) :
    List.replicate n c ++ c :: q = c :: (List.replicate n c ++ q) := by
  rw [← List.singleton_append, ← List.append_assoc, ← List.replicate_succ', List.replicate_succ]
  rfl

mutual
theorem Tree.openBraces_le_length : (v : Tree) → v.openBraces ≤ v.render.length
  | .text _ => Nat.zero_le _
  | .array _ => Nat.zero_le _
  | .dictionary entries => by
    have h := openBraces_le_length entries
    simp only [Tree.openBraces, Tree.render, List.length_cons, List.length_append, List.length_nil]
    omega
theorem openBraces_le_length : (entries : List (Text × Tree)) →
    entriesOpenBraces entries ≤ (renderEntries entries).length
  | [] => Nat.zero_le _
  | [(k, v)] => by
    have h := v.openBraces_le_length
    simp only [entriesOpenBraces, renderEntries, List.length_cons, List.length_append]
    omega
  | (k, v) :: e :: entries => by
    have h := openBraces_le_length (e :: entries)
    simp only [entriesOpenBraces, renderEntries, List.length_cons, List.length_append]
    omega
end

theorem fresh_tail {entries : List (Text × Tree)}
    (hd : (((k, v) :: entries).map Prod.fst).Nodup)
    (hk : ∀ e ∈ (k, v) :: entries, some e.1 ∉ keys dict) :
    ∀ e ∈ entries, some e.1 ∉ keys ((some k, value) :: dict) := by
  intro e he hmem
  rcases List.mem_cons.mp hmem with heq | hmem
  · have hmap : k ∈ entries.map Prod.fst := List.mem_map.mpr ⟨e, he, Option.some.inj heq⟩
    exact (List.nodup_cons.mp hd).1 hmap
  · exact hk e (List.mem_cons_of_mem _ he) hmem

theorem lwmDictLoop_next {v : Tree} (hdict : ¬ v.isDictionary) (hk : PlainText k)
    (hv : lwmKvoVal (m + 1) p = .ok (some v.mirror, v.leftover ++ ';' :: q))
    (hn : KeysNonNull dict) (hf : some k ∉ keys dict) :
    ∃ n, m + 1 ≤ n ∧
      lwmDictLoop (m + 3) dict (k ++ '=' :: p) = lwmDictLoop n ((some k, v.mirror) :: dict) q := by
  cases v with
  | text t =>
    refine ⟨m + 2, by omega, ?_⟩
    rw [lwmDictLoop_entry_ok hk hv hn hf, if_neg (by decide)]
  | array items =>
    refine ⟨m + 1, by omega, ?_⟩
    rw [lwmDictLoop_entry_ok hk hv hn hf, if_neg (by decide)]
    exact lwmDictLoop_separator
  | dictionary entries => exact absurd rfl hdict

theorem lwmNewArrayParsing_of_loop (hw : itemsWellFormed (v :: items))
    (hloop : lwmArrayLoop n .openable [] (renderItems (v :: items) ++ p) = .ok (arr, q)) :
    lwmNewArrayParsing (n + 1) ('[' :: (renderItems (v :: items) ++ p)) =
      .ok (arr.map .array, q) := by
  obtain ⟨c, s, hr, hc, -⟩ := itemsWellFormed.render_cons hw
  rw [hr, List.cons_append] at hloop ⊢
  rw [lwmNewArrayParsing_open hc, hloop]
  rfl

theorem lwmNewDictParsing_of_loop (hloop : lwmDictLoop n [] p = .ok (true, dict, q)) :
    lwmNewDictParsing (n + 1) ('{' :: p) = .ok (some (.dictionary dict), q) := by
  rw [lwmNewDictParsing_open, hloop]
  rfl

mutual
theorem lwmKvoVal_render : (v : Tree) → v.WellFormed → v.NestsLast → (d = ';' ∨ d = '}') →
    2 * (v.render ++ d :: q).length + 2 ≤ n →
    lwmKvoVal n (v.render ++ d :: q) = .ok (some v.mirror, v.leftover ++ d :: q)
  | .text t, hw, _, hd, hf => by
    obtain ⟨m, rfl⟩ : ∃ m, n = m + 1 := ⟨n - 1, by omega⟩
    simpa [Tree.render, Tree.mirror, Tree.leftover] using lwmKvoVal_text hw hd
  | .array [], _, _, _, hf => by
    obtain ⟨m, rfl⟩ : ∃ m, n = m + 2 := ⟨n - 2, by omega⟩
    simp [Tree.render, renderItems, lwmKvoVal_array, Tree.mirror, mirrorItems, Tree.leftover]
  | .array (v :: items), hw, hn, _, hf => by
    obtain ⟨m, rfl⟩ : ∃ m, n = m + 2 := ⟨n - 2, by omega⟩
    have hloop := lwmArrayLoop_render (q := d :: q) (n := m) (v :: items) [] (by simp) hw hn (by
      simp only [Tree.render, List.length_append, List.length_cons, List.length_nil] at hf ⊢
      omega)
    simp only [Tree.render, List.cons_append, List.append_assoc, List.nil_append]
    rw [lwmKvoVal_array, lwmNewArrayParsing_of_loop hw hloop]
    rfl
  | .dictionary entries, hw, hn, _, hf => by
    obtain ⟨m, rfl⟩ : ∃ m, n = m + 2 := ⟨n - 2, by omega⟩
    have hloop := lwmDictLoop_render (q := d :: q) (n := m) entries [] hw.1 hw.2 hn (by simp [KeysNonNull])
      (by simp [keys]) (by
        simp only [Tree.render, List.length_append, List.length_cons, List.length_nil] at hf ⊢
        omega)
    simp only [Tree.render, List.cons_append, List.append_assoc, List.nil_append]
    rw [lwmKvoVal_dictionary, lwmNewDictParsing_of_loop hloop]
    rfl
theorem lwmArrayLoop_item : (v : Tree) → v.WellFormed → v.NestsLast → (d = ',' ∨ d = ']') →
    2 * (v.render ++ d :: q).length + 2 ≤ n →
    ∃ m, 2 * q.length + 2 ≤ m ∧
      lwmArrayLoop n .openable a (v.render ++ d :: q) =
        if d = ',' then lwmArrayLoop m .openable (v.mirror :: a) q
        else .ok (some (v.mirror :: a), d :: q)
  | .text t, hw, _, hd, hf => by
    simp only [Tree.render, List.length_append, List.length_cons] at hf ⊢
    obtain ⟨m, rfl⟩ : ∃ m, n = t.length + (m + 1) := ⟨n - t.length - 1, by omega⟩
    refine ⟨m, by omega, ?_⟩
    rw [lwmArrayLoop_text hw, lwmArrayLoop_kvVal_end hd, between_append]
    rfl
  | .array [], _, _, hd, hf => by
    simp only [Tree.render, renderItems, List.length_append, List.length_cons] at hf ⊢
    obtain ⟨m, rfl⟩ : ∃ m, n = m + 2 := ⟨n - 2, by omega⟩
    refine ⟨m, by omega, ?_⟩
    rcases hd with rfl | rfl <;>
      simp [lwmArrayLoop_array, addLwmObjectToArray, bind, Except.bind, Tree.mirror, mirrorItems]
  | .array (v :: items), hw, hn, hd, hf => by
    obtain ⟨m, rfl⟩ : ∃ m, n = m + 2 := ⟨n - 2, by omega⟩
    have hloop := lwmArrayLoop_render (q := d :: q) (n := m) (v :: items) [] (by simp) hw hn (by
      simp only [Tree.render, List.length_append, List.length_cons, List.length_nil] at hf ⊢
      omega)
    refine ⟨m, by
      simp only [Tree.render, List.length_append, List.length_cons] at hf
      omega, ?_⟩
    simp only [Tree.render, List.cons_append, List.append_assoc, List.nil_append]
    rw [lwmArrayLoop_array, lwmNewArrayParsing_of_loop hw hloop]
    rcases hd with rfl | rfl <;> simp [bind, Except.bind, addLwmObjectToArray, Tree.mirror]
  | .dictionary entries, hw, hn, hd, hf => by
    simp only [Tree.render, List.length_append, List.length_cons, List.length_nil] at hf
    obtain ⟨m, rfl⟩ : ∃ m, n = m + 2 := ⟨n - 2, by omega⟩
    have hloop := lwmDictLoop_render (q := d :: q) (n := m) entries [] hw.1 hw.2 hn (by simp [KeysNonNull])
      (by simp [keys]) (by simp only [List.length_append, List.length_cons]; omega)
    have hbraces := openBraces_le_length entries
    obtain ⟨j, rfl⟩ : ∃ j, m = entriesOpenBraces entries + (j + 1) :=
      ⟨m - entriesOpenBraces entries - 1, by omega⟩
    have hskip := lwmArrayLoop_object_skip (t := List.replicate (entriesOpenBraces entries) '}')
      (n := j + 2) (a := .dictionary (mirrorEntries entries []) :: a) (p := d :: q)
      (by simp +contextual [nul])
    refine ⟨j + 1, by omega, ?_⟩
    simp only [Tree.render, List.cons_append, List.append_assoc, List.nil_append]
    rw [lwmArrayLoop_dictionary, lwmNewDictParsing_of_loop hloop]
    simp only [List.length_replicate] at hskip
    simp only [bind, Except.bind, addLwmObjectToArray, List.replicate_succ,
      List.cons_append, List.tail_cons]
    rw [show entriesOpenBraces entries + (j + 1) + 1 = entriesOpenBraces entries + (j + 2) by omega,
      hskip]
    rcases hd with rfl | rfl <;> simp [Tree.mirror]
theorem lwmArrayLoop_render : (items : List Tree) → (arr : List LWMObject) → items ≠ [] →
    itemsWellFormed items → itemsNestLast items →
    2 * (renderItems items ++ ']' :: q).length + 2 ≤ n →
    lwmArrayLoop n .openable arr (renderItems items ++ ']' :: q) =
      .ok (some (mirrorItems items arr), ']' :: q)
  | [], _, hne, _, _, _ => absurd rfl hne
  | [v], arr, _, hw, hn, hf => by
    obtain ⟨m, -, h⟩ := lwmArrayLoop_item (a := arr) v hw.1 hn.1 (.inr rfl) hf
    simpa [renderItems, mirrorItems] using h
  | v :: w :: items, arr, _, hw, hn, hf => by
    simp only [renderItems, List.append_assoc, List.cons_append] at hf ⊢
    obtain ⟨m, hm, h⟩ := lwmArrayLoop_item (a := arr) v hw.1 hn.1 (.inl rfl) hf
    rw [h, if_pos rfl]
    exact lwmArrayLoop_render (w :: items) (v.mirror :: arr) (by simp) hw.2 hn.2 hm
theorem lwmDictLoop_render : (entries : List (Text × Tree)) → (dict : LWMDictionary) →
    (entries.map Prod.fst).Nodup → entriesWellFormed entries → entriesNestLast entries →
    KeysNonNull dict → (∀ e ∈ entries, some e.1 ∉ keys dict) →
    2 * (renderEntries entries ++ '}' :: q).length + 2 ≤ n →
    lwmDictLoop n dict (renderEntries entries ++ '}' :: q) =
      .ok (true, mirrorEntries entries dict,
        List.replicate (entriesOpenBraces entries + 1) '}' ++ q)
  | [], dict, _, _, _, _, _, hf => by
    obtain ⟨m, rfl⟩ : ∃ m, n = m + 1 := ⟨n - 1, by omega⟩
    simp [renderEntries, mirrorEntries, entriesOpenBraces]
  | [(k, v)], dict, _, hw, hn, hnn, hk, hf => by
    simp only [renderEntries, List.append_assoc, List.cons_append, List.length_append,
      List.length_cons] at hf ⊢
    obtain ⟨m, rfl⟩ : ∃ m, n = m + 3 := ⟨n - 3, by omega⟩
    have hv := lwmKvoVal_render (q := q) (n := m + 1) v hw.2.1 hn.1 (.inr rfl) (by
      simp only [List.length_append, List.length_cons]; omega)
    have hnew := hk (k, v) (by simp)
    cases v with
    | text t => rw [lwmDictLoop_entry_ok hw.1 hv hnn hnew]; rfl
    | array items =>
      rw [lwmDictLoop_entry_ok hw.1 hv hnn hnew]
      simp [mirrorEntries, entriesOpenBraces, Tree.openBraces]
    | dictionary entries =>
      rw [Tree.leftover, List.replicate_succ, List.cons_append] at hv
      rw [lwmDictLoop_entry_ok hw.1 hv hnn hnew, if_pos rfl, replicate_append_cons]
      simp [mirrorEntries, entriesOpenBraces, Tree.openBraces, List.replicate_succ]
  | (k, v) :: e :: entries, dict, hd, hw, hn, hnn, hk, hf => by
    simp only [renderEntries, List.append_assoc, List.cons_append, List.length_append,
      List.length_cons] at hf ⊢
    obtain ⟨m, rfl⟩ : ∃ m, n = m + 3 := ⟨n - 3, by omega⟩
    have hv := lwmKvoVal_render (q := renderEntries (e :: entries) ++ '}' :: q) (n := m + 1) v
      hw.2.1 hn.1 (.inl rfl) (by simp only [List.length_append, List.length_cons]; omega)
    have hdict : ¬ v.isDictionary := fun hdict => by simpa using hn.2.1 hdict
    obtain ⟨n, hm, hloop⟩ := lwmDictLoop_next hdict hw.1 hv hnn (hk (k, v) (by simp))
    rw [hloop]
    exact lwmDictLoop_render (e :: entries) ((some k, v.mirror) :: dict) (List.nodup_cons.mp hd).2
      hw.2.2 hn.2.2 hnn.cons (fresh_tail hd hk)
      (by simp only [List.length_append, List.length_cons]; omega)
end

end IoTware.LwMsg
