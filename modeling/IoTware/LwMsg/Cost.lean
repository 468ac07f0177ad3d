import IoTware.LwMsg.ReadBack

/-!
# Every entry costs a `=`

No input makes the parser bind more keys than it has read `=`: the entries of
what a routine returns and the `=` it leaves unread are no more than the `=` it
was given. A rendering has exactly one `=` for each entry of its tree, so a
routine that passes over one of them cannot return the tree any more.
-/

namespace IoTware.LwMsg

open CText Loops

mutual
def LWMObject.entryCount : LWMObject → Nat
  | .number _ => 0
  | .string _ => 0
  | .array items => itemsEntryCount items
  | .dictionary dict => dictEntryCount dict
def itemsEntryCount : List LWMObject → Nat
  | [] => 0
  | o :: items => o.entryCount + itemsEntryCount items
def dictEntryCount : LWMDictionary → Nat
  | [] => 0
  | (key, value) :: dict => (if key = none then 0 else 1) + value.entryCount + dictEntryCount dict
end

def LWMessage.entryCount (msg : LWMessage) : Nat :=
  dictEntryCount msg.header + dictEntryCount msg.body

theorem dictEntryCount_sublist (h : List.Sublist dict' dict) :
    dictEntryCount dict' ≤ dictEntryCount dict := by
  induction h with
  | slnil => exact Nat.le_refl _
  | cons kv _ ih => simp only [dictEntryCount]; omega
  | cons_cons kv _ ih => simp only [dictEntryCount]; omega

theorem dictEntryCount_foreachToDel (dict : LWMDictionary) :
    dictEntryCount (foreachToDel dict) ≤ dictEntryCount dict :=
  dictEntryCount_sublist (List.drop_sublist _ _)

theorem itemsEntryCount_addLwmObjectToArray (arr : List LWMObject) (obj : Option LWMObject) :
    itemsEntryCount (addLwmObjectToArray arr obj) =
      (obj.map LWMObject.entryCount).getD 0 + itemsEntryCount arr := by
  cases obj <;> simp [addLwmObjectToArray, itemsEntryCount]

theorem count_tail_le (q : List Char) : q.tail.count '=' ≤ q.count '=' :=
  (List.tail_sublist q).count_le '='

-- ---------------------------------------------------------------------------
-- The routines
-- ---------------------------------------------------------------------------

theorem lwmKvoKey_count (h : lwmKvoKey start p = .ok e) :
    match e with
    | .ended q | .failed q => q.count '=' ≤ p.count '='
    | .key _ q => q.count '=' + 1 ≤ p.count '=' := by
  induction p generalizing start with
  | nil => simp [lwmKvoKey] at h
  | cons c p ih =>
    have hcount : p.count '=' ≤ (c :: p).count '=' := List.count_le_count_cons
    unfold lwmKvoKey at h
    split at h
    · cases h; exact Nat.le_refl _
    split at h
    · have := ih h; cases e <;> simp only at this ⊢ <;> omega
    split at h
    · cases h; exact Nat.le_refl _
    split at h
    · rename_i heq
      subst heq
      split at h
      · cases h; exact Nat.le_refl _
      · cases h; simp
    · have := ih h; cases e <;> simp only at this ⊢ <;> omega

theorem lwmKvoText_count (h : lwmKvoText start p = .ok (text, q)) : q.count '=' ≤ p.count '=' := by
  induction p with
  | nil => simp [lwmKvoText] at h
  | cons c p ih =>
    have hcount : p.count '=' ≤ (c :: p).count '=' := List.count_le_count_cons
    rw [lwmKvoText] at h
    split at h
    · cases h; exact Nat.le_refl _
    split at h
    · exact Nat.le_trans (ih h) hcount
    split at h
    · cases h; exact Nat.le_refl _
    split at h
    · cases h; exact Nat.le_refl _
    · exact Nat.le_trans (ih h) hcount

/-- What the routines do to the entries and the `=`, at one amount of fuel. -/
structure CountsAt (n : Nat) : Prop where
  dictLoop : lwmDictLoop n dict p = .ok (b, dict', q) →
    dictEntryCount dict' + q.count '=' ≤ dictEntryCount dict + p.count '='
  kvoVal : lwmKvoVal n p = .ok (value, q) →
    (value.map LWMObject.entryCount).getD 0 + q.count '=' ≤ p.count '='
  kvo {kv : Option LWMKVObject} : lwmKvoParsing n p = .ok (kv, q) →
    (kv.map fun kv => dictEntryCount [kv]).getD 0 + q.count '=' ≤ p.count '='
  newDict : lwmNewDictParsing n p = .ok (obj, q) →
    (obj.map LWMObject.entryCount).getD 0 + q.count '=' ≤ p.count '='
  arrayLoop : lwmArrayLoop n mode arr p = .ok (arr', q) →
    (arr'.map itemsEntryCount).getD 0 + q.count '=' ≤ itemsEntryCount arr + p.count '='
  newArray : lwmNewArrayParsing n p = .ok (obj, q) →
    (obj.map LWMObject.entryCount).getD 0 + q.count '=' ≤ p.count '='

theorem CountsAt.dictLoop_succ (ih : CountsAt n) (h : lwmDictLoop (n + 1) dict p = .ok (b, dict', q)) :
    dictEntryCount dict' + q.count '=' ≤ dictEntryCount dict + p.count '=' := by
  cases p with
  | nil => simp [lwmDictLoop] at h
  | cons c p =>
    have hcount : p.count '=' ≤ (c :: p).count '=' := List.count_le_count_cons
    rw [lwmDictLoop] at h
    split at h
    · cases h; exact Nat.le_refl _
    split at h
    · have := ih.dictLoop h; omega
    split at h
    · cases h; exact Nat.le_refl _
    split at h
    · have := ih.dictLoop h; omega
    · simp only [bind_ok] at h
      obtain ⟨⟨kvo, q'⟩, hkvo, h⟩ := h
      have hk := ih.kvo hkvo
      cases kvo with
      | none =>
        cases h
        simp only [Option.map_none, Option.getD_none] at hk
        omega
      | some kvo =>
        simp only [bind_ok] at h
        obtain ⟨rest, hdel, h⟩ := h
        have hsub := dictEntryCount_sublist (deleteLwmKvoByKey_sublist hdel)
        have hcons : dictEntryCount (kvo :: rest) = dictEntryCount [kvo] + dictEntryCount rest := by
          simp [dictEntryCount]
        simp only [Option.map_some, Option.getD_some] at hk
        cases q' with
        | nil => simp at h
        | cons d q' =>
          simp only at h
          have hd : q'.count '=' ≤ (d :: q').count '=' := List.count_le_count_cons
          split at h
          · cases h; omega
          · have := ih.dictLoop h; omega

theorem CountsAt.kvoVal_succ (ih : CountsAt n) (h : lwmKvoVal (n + 1) p = .ok (value, q)) :
    (value.map LWMObject.entryCount).getD 0 + q.count '=' ≤ p.count '=' := by
  cases p with
  | nil => simp [lwmKvoVal] at h
  | cons c p =>
    have hcount : p.count '=' ≤ (c :: p).count '=' := List.count_le_count_cons
    rw [lwmKvoVal] at h
    split at h
    · cases h; simp [LWMObject.entryCount]
    split at h
    · have := ih.kvoVal h; omega
    split at h
    · exact ih.newDict h
    split at h
    · exact ih.newArray h
    split at h
    · cases h; simp
    · simp only [bind_ok] at h
      obtain ⟨⟨text, q'⟩, htext, h⟩ := h
      cases h
      have := lwmKvoText_count htext
      cases text <;> simp [LWMObject.entryCount] <;> omega

theorem CountsAt.kvo_succ {kv : Option LWMKVObject} (ih : CountsAt n)
    (h : lwmKvoParsing (n + 1) p = .ok (kv, q)) :
    (kv.map fun kv => dictEntryCount [kv]).getD 0 + q.count '=' ≤ p.count '=' := by
  simp only [lwmKvoParsing, bind_ok] at h
  obtain ⟨e, hkey, h⟩ := h
  have hkey := lwmKvoKey_count hkey
  cases e with
  | ended r => cases h; simpa [dictEntryCount, LWMObject.entryCount] using hkey
  | failed r => cases h; simpa using hkey
  | key text r =>
    simp only [bind_ok] at h
    obtain ⟨⟨value, q'⟩, hval, h⟩ := h
    cases h
    have hval := ih.kvoVal hval
    cases value <;> simp [dictEntryCount] at hval ⊢ <;> omega

theorem CountsAt.newDict_succ (ih : CountsAt n) (h : lwmNewDictParsing (n + 1) p = .ok (obj, q)) :
    (obj.map LWMObject.entryCount).getD 0 + q.count '=' ≤ p.count '=' := by
  cases p with
  | nil => simp [lwmNewDictParsing] at h
  | cons c p =>
    have hcount : p.count '=' ≤ (c :: p).count '=' := List.count_le_count_cons
    simp only [lwmNewDictParsing, bind_ok] at h
    obtain ⟨⟨b, dict, r⟩, hloop, h⟩ := h
    cases h
    have hloop := ih.dictLoop hloop
    have hopen : (if c = '{' then p else c :: p).count '=' ≤ (c :: p).count '=' := by
      split
      · exact hcount
      · exact Nat.le_refl _
    simp only [dictEntryCount] at hloop
    cases b <;> simp [LWMObject.entryCount] <;> omega

theorem CountsAt.newArray_succ (ih : CountsAt n) (h : lwmNewArrayParsing (n + 1) p = .ok (obj, q)) :
    (obj.map LWMObject.entryCount).getD 0 + q.count '=' ≤ p.count '=' := by
  cases p with
  | nil => simp [lwmNewArrayParsing] at h
  | cons c p =>
    have hopen : (if c = '[' then p else c :: p).count '=' ≤ (c :: p).count '=' := by
      split
      · exact List.count_le_count_cons
      · exact Nat.le_refl _
    simp only [lwmNewArrayParsing] at h
    split at h
    · simp at h
    · rename_i d r heq
      rw [heq] at hopen
      split at h
      · cases h; simpa [LWMObject.entryCount, itemsEntryCount] using hopen
      · simp only [bind_ok] at h
        obtain ⟨⟨arr, r⟩, hloop, h⟩ := h
        cases h
        have hloop := ih.arrayLoop hloop
        simp only [itemsEntryCount] at hloop
        cases arr <;> simp [LWMObject.entryCount] at hloop ⊢ <;> omega

theorem CountsAt.arrayLoop_succ (ih : CountsAt n)
    (h : lwmArrayLoop (n + 1) mode arr p = .ok (arr', q)) :
    (arr'.map itemsEntryCount).getD 0 + q.count '=' ≤ itemsEntryCount arr + p.count '=' := by
  cases p with
  | nil => simp [lwmArrayLoop] at h
  | cons c p =>
    have hcount : p.count '=' ≤ (c :: p).count '=' := List.count_le_count_cons
    have hobj (obj : Option LWMObject) (r : List Char)
        (hr : (obj.map LWMObject.entryCount).getD 0 + r.count '=' ≤ (c :: p).count '=')
        (h : lwmArrayLoop n .object (addLwmObjectToArray arr obj) r.tail = .ok (arr', q)) :
        (arr'.map itemsEntryCount).getD 0 + q.count '=' ≤
          itemsEntryCount arr + (c :: p).count '=' := by
      have := ih.arrayLoop h
      have := count_tail_le r
      rw [itemsEntryCount_addLwmObjectToArray] at *
      omega
    unfold lwmArrayLoop at h
    split at h
    · cases h; simp
    split at h
    · have := ih.arrayLoop h; omega
    cases mode with
    | openable =>
      simp only at h
      split at h
      · cases h; simp
      split at h
      · simp only [bind_ok] at h
        obtain ⟨⟨obj, r⟩, hdict, h⟩ := h
        exact hobj obj r (ih.newDict hdict) h
      split at h
      · simp only [bind_ok] at h
        obtain ⟨⟨obj, r⟩, harr, h⟩ := h
        exact hobj obj r (ih.newArray harr) h
      split at h
      · cases h; simp
      · have := ih.arrayLoop h; omega
    | kvVal start =>
      simp only at h
      split at h
      · have := ih.arrayLoop h
        simp only [itemsEntryCount, LWMObject.entryCount] at this
        omega
      split at h
      · cases h; simp [itemsEntryCount, LWMObject.entryCount]
      · have := ih.arrayLoop h; omega
    | object =>
      simp only at h
      split at h
      · have := ih.arrayLoop h; omega
      split at h
      · cases h; simp
      · have := ih.arrayLoop h; omega

theorem countsAt (n : Nat) : CountsAt n := by
  induction n with
  | zero =>
    constructor <;> intros <;>
      simp_all [lwmDictLoop, lwmKvoVal, lwmKvoParsing, lwmNewDictParsing, lwmArrayLoop,
        lwmNewArrayParsing]
  | succ n ih =>
    exact ⟨ih.dictLoop_succ, ih.kvoVal_succ, ih.kvo_succ, ih.newDict_succ, ih.arrayLoop_succ,
      ih.newArray_succ⟩

theorem lwmDictParsing_count (h : lwmDictParsing n dict p = .ok (dict', q)) :
    dictEntryCount dict' + q.count '=' ≤ dictEntryCount dict + p.count '=' := by
  cases p with
  | nil => simp [lwmDictParsing] at h
  | cons c p =>
    simp only [lwmDictParsing, bind_ok] at h
    obtain ⟨⟨b, d, r⟩, hloop, h⟩ := h
    cases h
    have hloop := (countsAt n).dictLoop hloop
    have hopen : (if c = '{' then p else c :: p).count '=' ≤ (c :: p).count '=' := by
      split
      · exact List.count_le_count_cons
      · exact Nat.le_refl _
    have hdel := dictEntryCount_foreachToDel d
    cases b <;> simp <;> omega

theorem lwmMessageLoop_count (h : lwmMessageLoop n mode bFlag msg p = .ok (b, msg')) :
    msg'.entryCount ≤ msg.entryCount + p.count '=' := by
  induction n generalizing mode bFlag msg p with
  | zero => simp [lwmMessageLoop] at h
  | succ n ih =>
    cases p with
    | nil => simp [lwmMessageLoop] at h
    | cons c p =>
      have hcount : p.count '=' ≤ (c :: p).count '=' := List.count_le_count_cons
      rw [lwmMessageLoop.eq_def] at h
      simp only at h
      split at h
      · cases h; exact Nat.le_add_right _ _
      split at h
      · have := ih h; omega
      split at h
      · cases h; exact Nat.le_add_right _ _
      split at h
      · cases mode with
        | header =>
          simp only [bind_ok] at h
          obtain ⟨⟨d, q⟩, hd, h⟩ := h
          have := lwmDictParsing_count hd
          have := count_tail_le q
          have := ih h
          simp only [LWMessage.entryCount] at *
          omega
        | body =>
          simp only [bind_ok] at h
          obtain ⟨⟨d, q⟩, hd, h⟩ := h
          have := lwmDictParsing_count hd
          have := count_tail_le q
          have := ih h
          simp only [LWMessage.entryCount] at *
          omega
        | openable => cases h; exact Nat.le_add_right _ _
      · cases h; exact Nat.le_add_right _ _

-- ---------------------------------------------------------------------------
-- Trees
-- ---------------------------------------------------------------------------

mutual
def Tree.entryCount : Tree → Nat
  | .text _ => 0
  | .array items => treesEntryCount items
  | .dictionary entries => entriesEntryCount entries
def treesEntryCount : List Tree → Nat
  | [] => 0
  | v :: items => v.entryCount + treesEntryCount items
def entriesEntryCount : List (Text × Tree) → Nat
  | [] => 0
  | (_, v) :: entries => 1 + v.entryCount + entriesEntryCount entries
end

theorem PlainText.count (h : PlainText t) : t.count '=' = 0 :=
  List.count_eq_zero.mpr fun hm => (h.2.2 '=' hm).ne_of_mem (by decide) rfl

mutual
theorem Tree.count_render : (v : Tree) → v.WellFormed → v.render.count '=' = v.entryCount
  | .text _, hw => PlainText.count hw
  | .array items, hw => by
    have := count_renderItems items hw
    simpa [Tree.render, Tree.entryCount] using this
  | .dictionary entries, hw => by
    have := count_renderEntries entries hw.2
    simpa [Tree.render, Tree.entryCount] using this
theorem count_renderItems : (items : List Tree) → itemsWellFormed items →
    (renderItems items).count '=' = treesEntryCount items
  | [], _ => rfl
  | [v], hw => by
    have := v.count_render hw.1
    simpa [renderItems, treesEntryCount] using this
  | v :: w :: items, hw => by
    have h := v.count_render hw.1
    have hrest := count_renderItems (w :: items) hw.2
    rw [treesEntryCount, ← h, ← hrest]
    simp [renderItems]
theorem count_renderEntries : (entries : List (Text × Tree)) → entriesWellFormed entries →
    (renderEntries entries).count '=' = entriesEntryCount entries
  | [], _ => rfl
  | [(k, v)], hw => by
    have h := v.count_render hw.2.1
    simp [renderEntries, entriesEntryCount, hw.1.count, h]
    omega
  | (k, v) :: e :: entries, hw => by
    have h := v.count_render hw.2.1
    have hrest := count_renderEntries (e :: entries) hw.2.2
    rw [entriesEntryCount, ← h, ← hrest]
    simp [renderEntries, hw.1.count]
    omega
end

theorem itemsEntryCount_perm (h : objs.Perm objs') :
    itemsEntryCount objs = itemsEntryCount objs' := by
  induction h with
  | nil => rfl
  | cons o _ ih => simp [itemsEntryCount, ih]
  | swap o o' l => simp only [itemsEntryCount]; omega
  | trans _ _ ih ih' => exact ih.trans ih'

theorem dictEntryCount_perm (h : dict.Perm dict') : dictEntryCount dict = dictEntryCount dict' := by
  induction h with
  | nil => rfl
  | cons kv _ ih => simp [dictEntryCount, ih]
  | swap kv kv' l => simp only [dictEntryCount]; omega
  | trans _ _ ih ih' => exact ih.trans ih'

mutual
theorem Tree.Denotes.entryCount : (v : Tree) → (o : LWMObject) → v.Denotes o →
    o.entryCount = v.entryCount
  | .text _, _, h => by subst h; rfl
  | .array items, _, h => by
    obtain ⟨objs, objs', rfl, hp, h⟩ := h
    rw [LWMObject.entryCount, ← itemsEntryCount_perm hp, Tree.entryCount]
    exact itemsDenote.entryCount items objs' h
  | .dictionary entries, _, h => by
    obtain ⟨dict, dict', rfl, hp, h⟩ := h
    rw [LWMObject.entryCount, ← dictEntryCount_perm hp, Tree.entryCount]
    exact entriesDenote.entryCount entries dict' h
theorem itemsDenote.entryCount : (items : List Tree) → (objs : List LWMObject) →
    itemsDenote items objs → itemsEntryCount objs = treesEntryCount items
  | [], _, h => by subst h; rfl
  | _ :: _, [], h => h.elim
  | v :: items, o :: objs, h => by
    rw [itemsEntryCount, treesEntryCount, Tree.Denotes.entryCount v o h.1,
      itemsDenote.entryCount items objs h.2]
theorem entriesDenote.entryCount : (entries : List (Text × Tree)) → (dict : LWMDictionary) →
    entriesDenote entries dict → dictEntryCount dict = entriesEntryCount entries
  | [], _, h => by subst h; rfl
  | _ :: _, [], h => h.elim
  | (k, v) :: entries, (key, value) :: dict, h => by
    obtain ⟨rfl, hv, h⟩ := h
    rw [dictEntryCount, entriesEntryCount, Tree.Denotes.entryCount v value hv,
      entriesDenote.entryCount entries dict h, if_neg (by simp)]
end

theorem DictDenotes.entryCount (h : DictDenotes entries dict) :
    dictEntryCount dict = entriesEntryCount entries := by
  obtain ⟨dict', hp, h⟩ := h
  rw [← dictEntryCount_perm hp, entriesDenote.entryCount entries dict' h]

mutual
theorem Tree.denotes_mirror : (v : Tree) → v.Denotes v.mirror
  | .text _ => rfl
  | .array items => by
    obtain ⟨objs, hp, h⟩ := itemsDenote_mirror items []
    exact ⟨_, objs, rfl, by simpa using hp.symm, h⟩
  | .dictionary entries => by
    obtain ⟨dict, hp, h⟩ := entriesDenote_mirror entries []
    exact ⟨_, dict, rfl, by simpa using hp.symm, h⟩
theorem itemsDenote_mirror : (items : List Tree) → (acc : List LWMObject) →
    ∃ objs, (mirrorItems items acc).Perm (objs ++ acc) ∧ itemsDenote items objs
  | [], acc => ⟨[], .refl _, rfl⟩
  | v :: items, acc => by
    obtain ⟨objs, hp, h⟩ := itemsDenote_mirror items (v.mirror :: acc)
    exact ⟨v.mirror :: objs, hp.trans List.perm_middle, v.denotes_mirror, h⟩
theorem entriesDenote_mirror : (entries : List (Text × Tree)) → (acc : LWMDictionary) →
    ∃ dict, (mirrorEntries entries acc).Perm (dict ++ acc) ∧ entriesDenote entries dict
  | [], acc => ⟨[], .refl _, rfl⟩
  | (k, v) :: entries, acc => by
    obtain ⟨dict, hp, h⟩ := entriesDenote_mirror entries ((some k, v.mirror) :: acc)
    exact ⟨(some k, v.mirror) :: dict, hp.trans List.perm_middle, rfl, v.denotes_mirror, h⟩
end

theorem dictDenotes_mirror (entries : List (Text × Tree)) :
    DictDenotes entries (mirrorEntries entries []) := by
  obtain ⟨dict, hp, h⟩ := entriesDenote_mirror entries []
  exact ⟨dict, by simpa using hp.symm, h⟩

end IoTware.LwMsg
