import Mathlib.Data.List.TakeWhile
import IoTware.LwMsg.ReadBack
import IoTware.LwMsg.Serialize

/-!
# The order of arrays

`add_lwm_object_to_array` and the parser insert at the head, and the serializer
and `LWM_FOREACH` start there. So an array is written back to front, and one that
is read is walked back to front: only what is written and read again has its
order.
-/

namespace IoTware.LwMsg

open CText

/-- A text that an array can hold: it has no delimiter, and its first character
that is no blank is printable. -/
def ItemText (t : Text) : Prop :=
  (∃ c, (t.dropWhile isSpace).head? = some c ∧ isPrint c) ∧ ∀ c ∈ t, c ≠ nul ∧ c ∉ delimiters

theorem PlainText.itemText (h : PlainText t) : ItemText t := by
  have hchars : ∀ c ∈ t, c ≠ nul ∧ c ∉ delimiters := fun c hc => ⟨(h.2.2 c hc).ne_nul, (h.2.2 c hc).2⟩
  obtain ⟨c, s, rfl, hc, hspace, -⟩ := h.cons
  refine ⟨⟨c, ?_, hc.1⟩, hchars⟩
  rw [List.dropWhile_cons_of_neg hspace, List.head?_cons]

def textObject (t : Text) : LWMObject := .string (some t)

def filledArray (xs : List Text) : List LWMObject :=
  xs.foldl (fun arr x => addLwmObjectToArray arr (some (textObject x))) []

def arrayText (xs : List Text) : Text := '[' :: (List.intercalate [','] xs ++ [']'])

theorem filledArray_eq (xs : List Text) : filledArray xs = (xs.map textObject).reverse := by
  have hfold : ∀ (xs : List Text) (arr : List LWMObject),
      xs.foldl (fun arr x => addLwmObjectToArray arr (some (textObject x))) arr =
        (xs.map textObject).reverse ++ arr := by
    intro xs
    induction xs with
    | nil => exact fun _ => rfl
    | cons x xs ih =>
      intro arr
      rw [List.foldl_cons, ih, List.map_cons, List.reverse_cons, List.append_assoc]
      rfl
  rw [filledArray, hfold, List.append_nil]

-- ---------------------------------------------------------------------------
-- Writing
-- ---------------------------------------------------------------------------

theorem serializeItems_texts (hacc : acc ≠ []) (xs : List Text) :
    serializeItems acc (xs.map textObject) = List.intercalate [','] (acc :: xs) := by
  induction xs generalizing acc with
  | nil => simp [serializeItems]
  | cons x xs ih =>
    have hnext : catSerialized ',' acc (some x) = acc ++ ',' :: x := if_neg hacc
    have hne : acc ++ ',' :: x ≠ [] := by simp
    rw [List.map_cons, serializeItems, textObject, serializeLwmObject, hnext, ih hne,
      List.intercalate_cons_cons]
    cases xs with
    | nil => simp
    | cons y ys => simp [List.intercalate_cons_cons]

theorem serializeLwmArray_texts (hxs : ∀ x ∈ xs, x ≠ []) :
    serializeLwmArray (xs.map textObject) = arrayText xs := by
  unfold serializeLwmArray arrayText
  cases xs with
  | nil => simp [serializeItems]
  | cons x xs =>
    have hfirst : catSerialized ',' [] (some x) = x := rfl
    rw [List.map_cons, serializeItems, textObject, serializeLwmObject, hfirst,
      serializeItems_texts (hxs x List.mem_cons_self)]

-- ---------------------------------------------------------------------------
-- Reading
-- ---------------------------------------------------------------------------

theorem ItemText.char {t : Text} (h : ∀ c ∈ t, c ≠ nul ∧ c ∉ delimiters) (hc : c ∈ t) :
    c ≠ nul ∧ c ≠ ',' ∧ c ≠ ']' := by
  obtain ⟨hnul, hdelim⟩ := h c hc
  simp only [delimiters, List.mem_cons, not_or] at hdelim
  obtain ⟨-, -, -, hclose, -, -, hcomma, -⟩ := hdelim
  exact ⟨hnul, hcomma, hclose⟩

theorem lwmArrayLoop_blanks (h : ∀ c ∈ t, isSpace c) :
    lwmArrayLoop (t.length + n) .openable arr (t ++ p) = lwmArrayLoop n .openable arr p := by
  induction t with
  | nil => simp
  | cons c t ih =>
    have hc := h c List.mem_cons_self
    have hnul : c ≠ nul := by
      rintro rfl
      exact absurd hc (by decide)
    have ih := ih fun d hd => h d (List.mem_cons_of_mem c hd)
    rw [List.length_cons, Nat.add_right_comm, List.cons_append, lwmArrayLoop, if_neg hnul, if_pos hc, ih]

theorem lwmArrayLoop_kvVal_skip (h : ∀ c ∈ t, c ≠ nul ∧ c ≠ ',' ∧ c ≠ ']') :
    lwmArrayLoop (t.length + n) (.kvVal s) arr (t ++ p) = lwmArrayLoop n (.kvVal s) arr p := by
  induction t with
  | nil => simp
  | cons c t ih =>
    obtain ⟨hnul, hcomma, hclose⟩ := h c List.mem_cons_self
    have ih := ih fun d hd => h d (List.mem_cons_of_mem c hd)
    rw [List.length_cons, Nat.add_right_comm, List.cons_append, lwmArrayLoop, if_neg hnul, ih]
    simp [hcomma, hclose]

theorem lwmArrayLoop_itemText (ht : ItemText t) :
    lwmArrayLoop (t.length + n) .openable arr (t ++ p) =
      lwmArrayLoop n (.kvVal (t.dropWhile isSpace ++ p)) arr p := by
  obtain ⟨⟨c, hhead, hprint⟩, hchars⟩ := ht
  have hsplit : t.takeWhile isSpace ++ t.dropWhile isSpace = t := List.takeWhile_append_dropWhile
  have hlength : t.length = (t.takeWhile isSpace).length + (t.dropWhile isSpace).length := by
    rw [← List.length_append, hsplit]
  have hblanks : lwmArrayLoop ((t.takeWhile isSpace).length + ((t.dropWhile isSpace).length + n))
      .openable arr (t.takeWhile isSpace ++ (t.dropWhile isSpace ++ p)) =
      lwmArrayLoop ((t.dropWhile isSpace).length + n) .openable arr (t.dropWhile isSpace ++ p) :=
    lwmArrayLoop_blanks fun c hc => List.mem_takeWhile_imp hc
  rw [← Nat.add_assoc, ← hlength, ← List.append_assoc, hsplit] at hblanks
  rw [hblanks]
  obtain ⟨s, hdrop⟩ := List.head?_eq_some_iff.mp hhead
  rw [hdrop]
  have hmem : ∀ d ∈ c :: s, d ∈ t := by
    intro d hd
    exact (List.dropWhile_sublist _).subset (hdrop ▸ hd)
  have hspace : ¬ isSpace c := by
    have hfirst := List.head?_dropWhile_not isSpace t
    rw [hhead] at hfirst
    simpa using hfirst
  have hplain : PlainChar c := ⟨hprint, (hchars c (hmem c List.mem_cons_self)).2⟩
  rw [List.length_cons, Nat.add_right_comm, List.cons_append, lwmArrayLoop, if_neg hplain.ne_nul,
    if_neg hspace]
  simp only [hplain.ne_of_mem (d := ',') (by decide), hplain.ne_of_mem (d := ']') (by decide),
    hplain.ne_of_mem (d := '{') (by decide), hplain.ne_of_mem (d := '[') (by decide),
    (hplain.not_token (by simp) (by decide) : ¬ lwmIsToken c ['}', ';', '=']), or_self, if_false,
    Bool.false_eq_true]
  exact lwmArrayLoop_kvVal_skip fun d hd => ItemText.char hchars (hmem d (List.mem_cons_of_mem c hd))

def readItem (t : Text) : LWMObject := textObject (t.dropWhile isSpace)

theorem lwmArrayLoop_texts (arr : List LWMObject) (hxs : ∀ x ∈ xs, ItemText x) (hne : xs ≠ [])
    (hfuel : (List.intercalate [','] xs).length < n) :
    lwmArrayLoop n .openable arr (List.intercalate [','] xs ++ ']' :: q) =
      .ok (some ((xs.map readItem).reverse ++ arr), ']' :: q) := by
  induction xs generalizing arr n with
  | nil => exact absurd rfl hne
  | cons x xs ih =>
    have hx := hxs x List.mem_cons_self
    cases xs with
    | nil =>
      rw [List.intercalate_singleton] at hfuel ⊢
      obtain ⟨m, rfl⟩ := Nat.exists_eq_add_of_lt hfuel
      rw [Nat.add_assoc, lwmArrayLoop_itemText hx, lwmArrayLoop_kvVal_end (.inr rfl), if_neg (by decide),
        between_append]
      rfl
    | cons y ys =>
      rw [List.intercalate_cons_cons] at hfuel ⊢
      have hlength : (x ++ [','] ++ List.intercalate [','] (y :: ys)).length =
          x.length + (1 + (List.intercalate [','] (y :: ys)).length) := by
        simp [Nat.add_comm 1]
      obtain ⟨m, hm⟩ := Nat.exists_eq_add_of_lt hfuel
      have hn : n = x.length + ((List.intercalate [','] (y :: ys)).length + m + 1 + 1) := by omega
      have hrest := ih (readItem x :: arr) (n := (List.intercalate [','] (y :: ys)).length + m + 1)
        (fun z hz => hxs z (List.mem_cons_of_mem x hz)) (List.cons_ne_nil y ys) (by omega)
      rw [hn, List.append_assoc, List.append_assoc, lwmArrayLoop_itemText hx, List.singleton_append,
        lwmArrayLoop_kvVal_end (.inl rfl), if_pos rfl, between_append]
      rw [List.map_cons, List.reverse_cons, List.append_assoc]
      exact hrest

theorem lwmNewArrayParsing_texts (hxs : ∀ x ∈ xs, ItemText x) (hfuel : (arrayText xs).length ≤ n) :
    lwmNewArrayParsing n (arrayText xs ++ q) =
      .ok (some (.array (xs.map readItem).reverse), ']' :: q) := by
  unfold arrayText at hfuel ⊢
  rw [List.length_cons, List.length_append, List.length_singleton] at hfuel
  obtain ⟨m, rfl⟩ := Nat.exists_eq_succ_of_ne_zero (Nat.pos_iff_ne_zero.mp (by omega) : n ≠ 0)
  rw [List.cons_append, List.append_assoc, List.singleton_append]
  cases xs with
  | nil => exact lwmNewArrayParsing_empty
  | cons x xs =>
    have hx := hxs x List.mem_cons_self
    have hloop := lwmArrayLoop_texts [] (q := q) hxs (List.cons_ne_nil x xs)
      (Nat.le_of_succ_le_succ hfuel)
    obtain ⟨c, hc, t, htext⟩ : ∃ c, c ∈ x ∧ ∃ t,
        List.intercalate [','] (x :: xs) ++ ']' :: q = c :: t := by
      cases x with
      | nil => exact absurd hx (by rintro ⟨⟨c, h, -⟩, -⟩; cases h)
      | cons c x => exact ⟨c, List.mem_cons_self, _, by rw [List.intercalate_cons_cons_left]; rfl⟩
    rw [htext] at hloop ⊢
    rw [lwmNewArrayParsing_open (ItemText.char hx.2 hc).2.2, hloop]
    simp [bind, Except.bind, pure, Except.pure]

/-- An array is written in the order opposite to the calls that filled it, and
walked in the order opposite to the text it was read from. -/
theorem array_order_reversed (xs : List Text) (hne : ∀ x ∈ xs, x ≠ []) :
    serializeLwmArray (filledArray xs) = arrayText xs.reverse ∧
    ∀ q n, (∀ x ∈ xs, ItemText x) → (arrayText xs).length ≤ n →
      lwmNewArrayParsing n (arrayText xs ++ q) =
        .ok (some (.array (xs.map readItem).reverse), ']' :: q) := by
  constructor
  · rw [filledArray_eq, ← List.map_reverse]
    exact serializeLwmArray_texts fun x hx => hne x (List.mem_reverse.mp hx)
  · exact fun q n hxs hfuel => lwmNewArrayParsing_texts hxs hfuel

theorem array_order_reversed_two :
    serializeLwmArray (filledArray [['a'], ['b']]) = arrayText [['b'], ['a']] ∧
    lwmNewArrayParsing 5 (arrayText [['a'], ['b']] ++ []) =
      .ok (some (.array [textObject ['b'], textObject ['a']]), [']']) := by
  obtain ⟨hserialize, hparse⟩ := array_order_reversed [['a'], ['b']] (by decide)
  have hplain : ∀ x ∈ [['a'], ['b']], PlainText x := by decide
  exact ⟨hserialize, hparse [] 5 (fun x hx => (hplain x hx).itemText) (by decide)⟩

/-- Two texts come out in the other order. -/
theorem array_order_swapped :
    ¬ ∀ xs : List Text, (∀ x ∈ xs, PlainText x) →
      serializeLwmArray (filledArray xs) = arrayText xs ∧
      ∀ q n, (arrayText xs).length ≤ n →
        lwmNewArrayParsing n (arrayText xs ++ q) = .ok (some (.array (xs.map textObject)), ']' :: q) := by
  intro h
  have hserialize := (h [['a'], ['b']] (by decide)).1
  rw [filledArray_eq] at hserialize
  have hreversed : serializeLwmArray ([['b'], ['a']].map textObject) = arrayText [['b'], ['a']] :=
    serializeLwmArray_texts (by decide)
  exact absurd (hreversed.symm.trans hserialize) (by decide)

end IoTware.LwMsg
